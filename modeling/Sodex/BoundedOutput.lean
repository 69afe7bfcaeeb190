import Sodex.CInt
import Sodex.JsonCalls

/-!
# Bounded tool output

`bounded_output.c` keeps the start of the output of a tool, and its first and its last bytes, while
the output comes in pieces. Each window is that of the whole output, however it was cut.
-/
namespace Sodex.Bounded

open CInt CText Json List

def AGENT_BOUNDED_INLINE : ℕ := 1024
def AGENT_BOUNDED_HEAD : ℕ := 256
def AGENT_BOUNDED_TAIL : ℕ := 256

/-- `struct bounded_output`. The lengths are those of the buffers, and `artifact` is what was
written to the file of `artifact_fd` while it is open. -/
structure BoundedOutput where
  inlineBuf : List UInt8
  head : List UInt8
  tail : List UInt8
  totalBytes : ℤ
  omittedBytes : ℤ
  artifact : Option (List UInt8)
  artifactPath : List UInt8
  deriving DecidableEq, Repr

namespace BoundedOutput

def init : BoundedOutput := ⟨[], [], [], 0, 0, none, []⟩

/-- `bounded_output_begin_artifact` with the path it makes; `opened` is whether that can be
opened. -/
def beginArtifact (out : BoundedOutput) (path : List UInt8) (opened : Bool) : BoundedOutput :=
  if opened then { out with artifact := some [], artifactPath := path }
  else { out with artifact := none, artifactPath := [] }

/-- What goes into a buffer for the first `cap` bytes. -/
def putFront (cap : ℕ) (buf data : List UInt8) : List UInt8 :=
  if buf.length < cap then buf ++ data.take (cap - buf.length) else buf

/-- What goes into a buffer for the last `cap` bytes. -/
def putTail (cap : ℕ) (tail data : List UInt8) : List UInt8 :=
  if cap ≤ data.length then data.drop (data.length - cap)
  else tail.drop (tail.length + data.length - cap) ++ data

/-- `bounded_output_append`; `none` if it returns an error. -/
def append (out : BoundedOutput) (data : List UInt8) : Option BoundedOutput :=
  if data = [] then none
  else some { out with
    artifact := out.artifact.map (· ++ data)
    inlineBuf := putFront AGENT_BOUNDED_INLINE out.inlineBuf data
    head := putFront AGENT_BOUNDED_HEAD out.head data
    tail := putTail AGENT_BOUNDED_TAIL out.tail data
    totalBytes := toInt (out.totalBytes + data.length) }

/-- Calls of `bounded_output_append`, one after the other. -/
def appendAll (out : BoundedOutput) (pieces : List (List UInt8)) : BoundedOutput :=
  pieces.foldl (fun out data => (out.append data).getD out) out

def finish (out : BoundedOutput) (keepArtifact : Bool) : BoundedOutput :=
  { out with
    omittedBytes := max (toInt (out.totalBytes - out.head.length - out.tail.length)) 0
    artifact := none
    artifactPath := if keepArtifact then out.artifactPath else [] }

def writeJson (out : BoundedOutput) (fullKey headKey tailKey : Option (List UInt8)) : List Call :=
  if out.totalBytes ≤ AGENT_BOUNDED_INLINE then
    [.key (fullKey.getD (ascii "output")), .string out.inlineBuf]
  else
    [.key (headKey.getD (ascii "output_head")), .string out.head,
      .key (tailKey.getD (ascii "output_tail")), .string out.tail,
      .key (ascii "omitted_bytes"), .int (BitVec.ofInt 32 out.omittedBytes)] ++
    (if out.artifactPath ≠ [] then [.key (ascii "artifact_path"), .string out.artifactPath]
      else []) ++
    [.key (ascii "truncated"), .bool true]

end BoundedOutput

open BoundedOutput

/-- The windows are those of `text`. -/
structure Holds (out : BoundedOutput) (text : List UInt8) : Prop where
  inlineBuf : out.inlineBuf = text.take AGENT_BOUNDED_INLINE
  head : out.head = text.take AGENT_BOUNDED_HEAD
  tail : out.tail = text.drop (text.length - AGENT_BOUNDED_TAIL)
  total : out.totalBytes = text.length

theorem putFront_take (cap : ℕ) (text data : List UInt8) :
    putFront cap (text.take cap) data = (text ++ data).take cap := by
  unfold putFront
  rw [take_append, length_take]
  split
  · congr 2
    omega
  · rw [Nat.sub_eq_zero_of_le (by omega), take_zero, append_nil]

theorem putTail_drop (cap : ℕ) (text data : List UInt8) :
    putTail cap (text.drop (text.length - cap)) data =
      (text ++ data).drop ((text ++ data).length - cap) := by
  unfold putTail
  rw [length_append, length_drop]
  split
  · rename_i hlong
    rw [Nat.add_sub_assoc hlong, drop_append, drop_of_length_le (Nat.le_add_right ..),
      nil_append, Nat.add_sub_cancel_left]
  · rw [drop_drop, drop_append_of_le_length (by omega)]
    congr 2
    omega

/-- A piece is put behind what came before it. -/
theorem Holds.append {out : BoundedOutput} {text data : List UInt8} (h : Holds out text)
    (hlen : (text ++ data).length < 2 ^ 31) : Holds ((out.append data).getD out) (text ++ data) := by
  unfold BoundedOutput.append
  split
  · rename_i hnil
    rwa [hnil, append_nil]
  · refine ⟨?_, ?_, ?_, ?_⟩
    · show putFront _ out.inlineBuf data = _
      rw [h.inlineBuf, putFront_take]
    · show putFront _ out.head data = _
      rw [h.head, putFront_take]
    · show putTail _ out.tail data = _
      rw [h.tail, putTail_drop]
    · rw [length_append] at hlen
      show toInt (out.totalBytes + data.length) = _
      rw [h.total, toInt_of_range (by omega) (by omega), length_append, Int.natCast_add]

theorem Holds.appendAll {out : BoundedOutput} {text : List UInt8} (h : Holds out text)
    (pieces : List (List UInt8)) (hlen : (text ++ pieces.flatten).length < 2 ^ 31) :
    Holds (out.appendAll pieces) (text ++ pieces.flatten) := by
  induction pieces generalizing out text with
  | nil => exact (append_nil text).symm ▸ h
  | cons data pieces ih =>
    rw [flatten_cons, ← append_assoc] at hlen ⊢
    refine ih (h.append ?_) hlen
    rw [length_append] at hlen
    omega

/-- What `bounded_output_write_json` writes of an output: all of it if it is short, and otherwise
both ends and the number of bytes between them. -/
def Written (text : List UInt8) (fullKey headKey tailKey : Option (List UInt8))
    (calls : List Call) : Prop :=
  if text.length ≤ AGENT_BOUNDED_INLINE then
    calls = [.key (fullKey.getD (ascii "output")), .string text]
  else ∃ omitted rest,
    calls = [.key (headKey.getD (ascii "output_head")), .string (text.take AGENT_BOUNDED_HEAD),
      .key (tailKey.getD (ascii "output_tail")),
      .string (text.drop (text.length - AGENT_BOUNDED_TAIL)),
      .key (ascii "omitted_bytes"), .int omitted] ++ rest ∧
    AGENT_BOUNDED_HEAD + omitted.toNat + AGENT_BOUNDED_TAIL = text.length

/-- However an output is cut into pieces, the windows that are kept of it are those of the whole, and
its summary accounts for every byte. -/
theorem boundedOutput_windows (start : BoundedOutput)
    (hstart : start = .init ∨ ∃ path opened, start = BoundedOutput.init.beginArtifact path opened)
    (pieces : List (List UInt8)) (hlen : pieces.flatten.length < 2 ^ 31) (keep : Bool) :
    Holds ((start.appendAll pieces).finish keep) pieces.flatten ∧
      ∀ fullKey headKey tailKey, Written pieces.flatten fullKey headKey tailKey
        (((start.appendAll pieces).finish keep).writeJson fullKey headKey tailKey) := by
  have hinit : Holds start [] := by
    rcases hstart with rfl | ⟨path, opened, rfl⟩
    · exact ⟨rfl, rfl, rfl, rfl⟩
    · cases opened <;> exact ⟨rfl, rfl, rfl, rfl⟩
  obtain ⟨hinline, hhead, htail, htotal⟩ := hinit.appendAll pieces hlen
  rw [nil_append] at *
  generalize pieces.flatten = text at *
  refine ⟨⟨hinline, hhead, htail, htotal⟩, fun fullKey headKey tailKey => ?_⟩
  unfold Written writeJson BoundedOutput.finish
  dsimp only
  rw [htotal, hinline, hhead, htail]
  by_cases hshort : text.length ≤ AGENT_BOUNDED_INLINE
  · rw [if_pos hshort, if_pos (Int.ofNat_le.mpr hshort), take_of_length_le hshort]
  · rw [if_neg hshort, if_neg (mt Int.ofNat_le.mp hshort)]
    refine ⟨_, _, rfl, ?_⟩
    have hfront : (text.take AGENT_BOUNDED_HEAD).length = 256 := by
      unfold AGENT_BOUNDED_INLINE at hshort
      rw [length_take, AGENT_BOUNDED_HEAD]
      omega
    have hback : (text.drop (text.length - AGENT_BOUNDED_TAIL)).length = 256 := by
      unfold AGENT_BOUNDED_INLINE at hshort
      rw [length_drop, AGENT_BOUNDED_TAIL]
      omega
    unfold AGENT_BOUNDED_INLINE at hshort
    rw [hfront, hback, toInt_of_range (by omega) (by omega), max_eq_left (by omega)]
    unfold AGENT_BOUNDED_HEAD AGENT_BOUNDED_TAIL
    rw [BitVec.toNat_ofInt]
    omega

/-- More than the inline buffer holds, so that the summary is written. -/
def twoPieces : List (List UInt8) := [replicate 1000 104, replicate 500 121]

theorem twoPieces_windows :
    Holds ((BoundedOutput.init.appendAll twoPieces).finish false) twoPieces.flatten ∧
      ∀ fullKey headKey tailKey, Written twoPieces.flatten fullKey headKey tailKey
        (((BoundedOutput.init.appendAll twoPieces).finish false).writeJson fullKey headKey
          tailKey) := by
  have hlen : twoPieces.flatten.length < 2 ^ 31 := by
    rw [length_flatten, twoPieces, map_cons, map_cons, map_nil, length_replicate, length_replicate]
    decide
  exact boundedOutput_windows .init (.inl rfl) twoPieces hlen false

end Sodex.Bounded
