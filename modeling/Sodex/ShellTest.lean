import Sodex.CText

/-!
# The `test` builtin of the shell

`test_eval_primary` takes the first argument for an operator whenever it looks like one. POSIX first
counts the arguments: an operand may look like an operator.
-/
namespace Sodex.Shell

open CText Option

abbrev Word := List UInt8

/-- What the builtin asks of the file system. -/
structure Files where
  pathExists : Word → Bool
  dirExists : Word → Bool

/-- The operators with one operand: their value without it, and what they ask of it. -/
def unaryOp (fs : Files) (tok : Word) : Option (Bool × (Word → Bool)) :=
  if tok = ascii "-f" ∨ tok = ascii "-e" then some (false, fs.pathExists)
  else if tok = ascii "-d" then some (false, fs.dirExists)
  else if tok = ascii "-n" then some (false, (· ≠ []))
  else if tok = ascii "-z" then some (true, (· = []))
  else none

def binaryOp (op : Word) : Option (Word → Word → Bool) :=
  if op = ascii "=" ∨ op = ascii "==" then some fun a b => a = b
  else if op = ascii "!=" then some fun a b => a ≠ b
  else none

/-- An operator with its operands, or a word. -/
def testOperator (fs : Files) (tok : Word) (rest : List Word) : Bool × List Word :=
  match unaryOp fs tok with
  | some (missing, test) =>
    match rest with
    | [] => (missing, [])
    | word :: rest => (test word, rest)
  | none =>
    match rest with
    | op :: word :: rest =>
      match binaryOp op with
      | some test => (test tok word, rest)
      | none => (tok ≠ [], op :: word :: rest)
    | _ => (tok ≠ [], rest)

/-- `test_eval_primary`, with the arguments that it leaves. -/
def testEvalPrimary (fs : Files) : List Word → Bool × List Word
  | [] => (false, [])
  | tok :: rest =>
    if tok = ascii "!" then (!(testEvalPrimary fs rest).1, (testEvalPrimary fs rest).2)
    else testOperator fs tok rest

/-- The arguments of the command without the closing bracket. -/
def testStatus (fs : Files) (args : List Word) : ℕ :=
  if args = [] then 1
  else
    match testEvalPrimary fs args with
    | (result, []) => if result then 0 else 1
    | _ => 2

def shellBuiltinTest (fs : Files) (name : Word) (args : List Word) : ℕ :=
  if name ≠ ascii "[" then testStatus fs args
  else if args.getLast? ≠ some (ascii "]") then 2
  else testStatus fs args.dropLast

def posixTwo (fs : Files) (a b : Word) : Option Bool :=
  if a = ascii "!" then some (b = []) else (unaryOp fs a).map fun op => op.2 b

/-- Three arguments: an operator in the middle comes first. -/
def posixThree (fs : Files) (a b c : Word) : Option Bool :=
  match binaryOp b with
  | some test => some (test a c)
  | none => if a = ascii "!" then (posixTwo fs b c).map not else none

/-- The value of the arguments, if they have one of the forms for up to four of them. -/
def posixTest (fs : Files) : List Word → Option Bool
  | [] => some false
  | [a] => some (a ≠ [])
  | [a, b] => posixTwo fs a b
  | [a, b, c] => posixThree fs a b c
  | [a, b, c, d] => if a = ascii "!" then (posixThree fs b c d).map not else none
  | _ => none

def exitStatus : Option Bool → ℕ
  | some true => 0
  | some false => 1
  | none => 2

/-- Both names of the builtin give the status of POSIX. -/
structure TestRight (fs : Files) (args : List Word) : Prop where
  test : shellBuiltinTest fs (ascii "test") args = exitStatus (posixTest fs args)
  bracket : shellBuiltinTest fs (ascii "[") (args ++ [ascii "]"]) = exitStatus (posixTest fs args)

def IsUnary (tok : Word) : Prop :=
  tok = ascii "-f" ∨ tok = ascii "-e" ∨ tok = ascii "-d" ∨ tok = ascii "-n" ∨ tok = ascii "-z"

def IsBinary (op : Word) : Prop := op = ascii "=" ∨ op = ascii "==" ∨ op = ascii "!="

instance : DecidablePred IsUnary := fun _ => inferInstanceAs (Decidable (_ ∨ _))

instance : DecidablePred IsBinary := fun _ => inferInstanceAs (Decidable (_ ∨ _))

/-- One test and nothing behind it. -/
def OneTest (a : Word) : List Word → Prop
  | [] => True
  | [_] => IsUnary a
  | [op, _] => ¬IsUnary a ∧ IsBinary op
  | _ => False

/-- The builtin reads the arguments to their end. -/
def Complete : List Word → Prop
  | [] => True
  | a :: rest => if a = ascii "!" then Complete rest else OneTest a rest

/-- The operator in the middle makes the first argument an operand. -/
def Shadowed (a : Word) : List Word → Prop
  | [op, _] => (a = ascii "!" ∨ IsUnary a) ∧ IsBinary op
  | _ => False

/-- The builtin reads the arguments in another way than POSIX, which takes a word alone for no
operator and has no form for more than four arguments. -/
def Misread : List Word → Prop
  | [] => False
  | a :: rest => Shadowed a rest ∨
    if a = ascii "!" then if rest.length ≤ 3 then Misread rest else Complete rest
    else rest = [] ∧ IsUnary a ∧ a ≠ ascii "-z"

section Reading

variable {fs : Files} {a op : Word} {rest args : List Word}

theorem unaryOp_eq_none : unaryOp fs a = none ↔ ¬IsUnary a := by
  unfold unaryOp IsUnary
  split_ifs <;> simp_all
  tauto

theorem binaryOp_eq_none : binaryOp op = none ↔ ¬IsBinary op := by
  unfold binaryOp IsBinary
  split_ifs <;> simp_all
  tauto

/-- What the builtin makes of the arguments. -/
def readTest (fs : Files) (args : List Word) : Option Bool :=
  if (testEvalPrimary fs args).2 = [] then some (testEvalPrimary fs args).1 else none

theorem readTest_negated : readTest fs (ascii "!" :: rest) = (readTest fs rest).map not := by
  unfold readTest
  rw [testEvalPrimary, if_pos rfl]
  split_ifs <;> rfl

theorem readTest_unary {missing : Bool} {test : Word → Bool} (hne : a ≠ ascii "!")
    (h : unaryOp fs a = some (missing, test)) : readTest fs (a :: rest) =
      match rest with
      | [] => some missing
      | [b] => some (test b)
      | _ => none := by
  unfold readTest
  rw [testEvalPrimary, if_neg hne]
  unfold testOperator
  rw [h]
  rcases rest with _ | ⟨b, _ | ⟨c, rest⟩⟩ <;> rfl

theorem readTest_word (hne : a ≠ ascii "!") (h : unaryOp fs a = none) : readTest fs (a :: rest) =
      match rest with
      | [] => some (a ≠ [])
      | [op, b] => (binaryOp op).map fun test => test a b
      | _ => none := by
  unfold readTest
  rw [testEvalPrimary, if_neg hne]
  unfold testOperator
  rw [h]
  rcases rest with _ | ⟨op, _ | ⟨b, _ | ⟨c, rest⟩⟩⟩
  · rfl
  · rfl
  all_goals cases hop : binaryOp op <;> simp [hop]

theorem unaryOp_eq_some (fs : Files) (h : IsUnary a) :
    ∃ test, unaryOp fs a = some (decide (a = ascii "-z"), test) := by
  rcases h with rfl | rfl | rfl | rfl | rfl <;> exact ⟨_, rfl⟩

theorem IsUnary.ne_nil (h : IsUnary a) : a ≠ [] := by
  rcases h with rfl | rfl | rfl | rfl | rfl <;> decide

theorem IsBinary.no_operator (h : IsBinary op) : op ≠ ascii "!" ∧ ¬IsUnary op := by
  rcases h with rfl | rfl | rfl <;> decide

theorem readTest_eq_none : readTest fs args = none ↔ ¬Complete args := by
  induction args with
  | nil => simp [readTest, testEvalPrimary, Complete]
  | cons a rest ih =>
    rw [Complete]
    split_ifs with hne
    · rw [hne, readTest_negated, map_eq_none_iff, ih]
    by_cases ha : IsUnary a
    · obtain ⟨test, htest⟩ := unaryOp_eq_some fs ha
      rw [readTest_unary hne htest]
      rcases rest with _ | ⟨op, _ | ⟨b, _ | ⟨c, rest⟩⟩⟩ <;> simp [OneTest, ha]
    · rw [readTest_word hne (unaryOp_eq_none.mpr ha)]
      rcases rest with _ | ⟨op, _ | ⟨b, _ | ⟨c, rest⟩⟩⟩ <;> simp [OneTest, ha, binaryOp_eq_none]

/-- POSIX leaves `!` for last, but for an operator in the middle. -/
theorem posixTest_negated (hlen : rest.length ≤ 3) (h : ¬Shadowed (ascii "!") rest) :
    posixTest fs (ascii "!" :: rest) = (posixTest fs rest).map not := by
  rcases rest with _ | ⟨b, _ | ⟨c, _ | ⟨d, _ | ⟨e, rest⟩⟩⟩⟩
  · rfl
  · simp [posixTest, posixTwo]
  · have hop : binaryOp b = none := binaryOp_eq_none.mpr fun hop => h ⟨.inl rfl, hop⟩
    simp [posixTest, posixThree, hop]
  · simp [posixTest]
  · exact absurd hlen (by simp)

theorem posixTest_long (hlen : 4 ≤ rest.length) : posixTest fs (a :: rest) = none := by
  rcases rest with _ | ⟨b, _ | ⟨c, _ | ⟨d, _ | ⟨e, rest⟩⟩⟩⟩
  case cons.cons.cons.cons => rfl
  all_goals exact absurd hlen (by simp)

/-- With an operator in the middle both readings are tests, and only one is of three arguments. -/
theorem readTest_shadowed (h : Shadowed a rest) :
    readTest fs (a :: rest) ≠ posixTest fs (a :: rest) := by
  obtain ⟨op, b, rfl⟩ : ∃ op b, rest = [op, b] := by
    rcases rest with _ | ⟨b, _ | ⟨c, _ | ⟨d, rest⟩⟩⟩ <;> simp_all [Shadowed]
  obtain ⟨ha, hop⟩ := h
  have hnone : readTest fs [a, op, b] = none := by
    rw [readTest_eq_none]
    rcases ha with rfl | ha
    · simp [Complete, OneTest, hop.no_operator]
    · have hne : a ≠ ascii "!" := by
        rcases ha with rfl | rfl | rfl | rfl | rfl <;> decide
      simp [Complete, OneTest, hne, ha]
  rw [hnone, posixTest, posixThree]
  split
  · simp
  · next hb => exact absurd hop (binaryOp_eq_none.mp hb)

theorem readTest_eq_iff : readTest fs args = posixTest fs args ↔ ¬Misread args := by
  induction args with
  | nil => simp [readTest, testEvalPrimary, posixTest, Misread]
  | cons a rest ih =>
    rw [Misread]
    by_cases hshadowed : Shadowed a rest
    · simp [hshadowed, readTest_shadowed]
    rw [or_iff_right hshadowed]
    by_cases hne : a = ascii "!"
    · subst hne
      rw [if_pos rfl, readTest_negated]
      split_ifs with hlen
      · rw [posixTest_negated hlen hshadowed, ← ih]
        exact (map_injective Bool.involutive_not.injective).eq_iff
      · rw [posixTest_long (by omega), map_eq_none_iff, readTest_eq_none]
    rw [if_neg hne]
    by_cases ha : IsUnary a
    · obtain ⟨test, htest⟩ := unaryOp_eq_some fs ha
      rw [readTest_unary hne htest]
      rcases rest with _ | ⟨op, _ | ⟨b, _ | ⟨c, _ | ⟨d, rest⟩⟩⟩⟩
      · simp [posixTest, ha, ha.ne_nil]
      · simp [posixTest, posixTwo, hne, htest]
      · have hop : binaryOp op = none := binaryOp_eq_none.mpr fun hop => hshadowed ⟨.inr ha, hop⟩
        simp [posixTest, posixThree, hop, hne]
      · simp [posixTest, hne]
      · simp [posixTest]
    · have htest : unaryOp fs a = none := unaryOp_eq_none.mpr ha
      rw [readTest_word hne htest]
      rcases rest with _ | ⟨op, _ | ⟨b, _ | ⟨c, _ | ⟨d, rest⟩⟩⟩⟩
      · simp [posixTest, ha]
      · simp [posixTest, posixTwo, hne, htest]
      · cases hop : binaryOp op <;> simp [posixTest, posixThree, hop, hne]
      · simp [posixTest, hne]
      · simp [posixTest]

theorem testStatus_eq : testStatus fs args = exitStatus (readTest fs args) := by
  unfold testStatus readTest
  by_cases hargs : args = []
  · rw [if_pos hargs, hargs]
    rfl
  · rw [if_neg hargs]
    rcases testEvalPrimary fs args with ⟨result, _ | ⟨a, rest⟩⟩
    · cases result <;> rfl
    · rfl

end Reading

/-- Both names of the builtin give the status of POSIX exactly when the arguments are not misread. -/
theorem testRight_iff (fs : Files) (args : List Word) : TestRight fs args ↔ ¬Misread args := by
  have hinj : Function.Injective exitStatus := by
    rintro (_ | _ | _) (_ | _ | _) h <;> first | rfl | cases h
  have htest : shellBuiltinTest fs (ascii "test") args = exitStatus (readTest fs args) :=
    testStatus_eq
  have hbracket : shellBuiltinTest fs (ascii "[") (args ++ [ascii "]"]) =
      exitStatus (readTest fs args) := by
    simp [shellBuiltinTest, testStatus_eq]
  rw [show ¬Misread args ↔ readTest fs args = posixTest fs args from readTest_eq_iff.symm]
  constructor
  · intro h
    exact hinj (htest.symm.trans h.test)
  · intro h
    exact ⟨htest.trans (congrArg _ h), hbracket.trans (congrArg _ h)⟩

/-- `test ! = !` returns 2, although two equal words are equal. -/
theorem exclamation_misread :
    ¬TestRight ⟨fun _ => false, fun _ => false⟩ [ascii "!", ascii "=", ascii "!"] :=
  fun h => absurd h.test (by decide)

end Sodex.Shell
