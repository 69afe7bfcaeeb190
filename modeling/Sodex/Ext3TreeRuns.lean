import Sodex.Ext3Tree

/-!
# The dentry tree over runs of calls

Each call of `ext3fs.c` that makes, removes or moves dentries keeps them a tree when it is
careful in the sense of `Careful`, whatever `kalloc` and the bitmaps answer.
-/
namespace Sodex.Ext3

open ByteMem LinkRing LinkFamily Dlist Runs List Option Function

section Calls

variable {s s' : Fs} {kids : ℕ → List ℕ} {d p : ℕ} {path : List UInt8} {flags : UInt32}
  {mode : UInt16}

/-- From `u` to `t` the new inode is marked and the block of `p` written. -/
structure Rebuilds (p : ℕ) (u t : Fs) : Prop where
  same {kids : ℕ → List ℕ} : DirTree u kids → p ∈ u.dentries → SameTree u t
  clock : t.clock = u.clock + if (u.dentry p).dirblock.isSome then 2 else 1
  kallocOk : t.kallocOk = u.kallocOk

theorem rebuilds (u : Fs) (p : ℕ) (newino : UInt32) : Rebuilds p u
    (rebuildDirblock { u with toStore := markInodeDirty u.toStore newino } (some p)) where
  same h hp := by
    have hmark : SameTree u { u with toStore := markInodeDirty u.toStore newino } :=
      sameTree_store u (keeps_markInodeDirty _ _).clock
    exact hmark.trans ((h.same hmark).rebuildDirblock fun q hq => some.inj hq ▸ hp)
  clock := by
    unfold rebuildDirblock
    dsimp only
    split
    · next hblock => rw [hblock, markInodeDirty_clock]; rfl
    · next hblock =>
      rw [hblock]
      exact (markBlockDirty_clock _ _ _).trans (congrArg (· + 1) (markInodeDirty_clock _ _))
  kallocOk := by
    unfold rebuildDirblock
    dsimp only
    split
    · exact (keeps_markInodeDirty _ _).kallocOk
    · exact (keeps_markBlockDirty _ _ _).kallocOk.trans (keeps_markInodeDirty _ _).kallocOk

/-- `__create_file` fails without a change to the dentries, or makes three requests and enters a new
dentry below the parent that the path names. -/
theorem createFile_cases (s : Fs) (path : List UInt8) (flags : UInt32) (mode : UInt16) :
    (∃ m, Keeps s.toStore m ∧ createFile s path flags mode = (none, { s with toStore := m })) ∨
      ∃ m₁ p filename newino m t, Keeps s.toStore m₁ ∧
        resolveParent { s with toStore := m₁ } path = (some p, filename) ∧ filename ≠ [] ∧
        getDentry { s with toStore := m₁ } filename p = none ∧ (allocIno s.toStore).1.isSome ∧
        (∀ i ∈ [s.clock, s.clock + 1, s.clock + 2], s.kallocOk i) ∧ m.clock = s.clock + 3 ∧
        m.kallocOk = s.kallocOk ∧ createFile s path flags mode = (some (s.clock + 1), t) ∧
        Rebuilds p (enterDentry { s with toStore := m } (s.clock + 1)
          (newDentry newino filename flags p) p) t := by
  have h₁ := keeps_kalloc s.toStore
  have hc₁ := kalloc_clock s.toStore
  have hino := allocIno_kalloc s.toStore
  unfold createFile
  rcases hk : kalloc s.toStore with ⟨_ | namebuf, m₁⟩ <;> rw [hk] at h₁ hc₁ hino
  · exact .inl ⟨m₁, h₁, rfl⟩
  dsimp only at hc₁ hino ⊢
  rcases hr : resolveParent { s with toStore := m₁ } path with ⟨_ | p, filename⟩
  · exact .inl ⟨m₁, h₁, rfl⟩
  dsimp only
  by_cases hempty : filename = []
  · rw [if_pos hempty]
    exact .inl ⟨m₁, h₁, rfl⟩
  rw [if_neg hempty]
  cases hg : getDentry { s with toStore := m₁ } filename p with
  | some c => exact .inl ⟨m₁, h₁, rfl⟩
  | none =>
    have h₂ := h₁.trans (keeps_allocIno m₁)
    have hc₂ := allocIno_clock m₁
    rcases hi : allocIno m₁ with ⟨_ | newino, m₂⟩ <;> rw [hi] at h₂ hc₂ hino
    · exact .inl ⟨m₂, h₂, rfl⟩
    dsimp only at hc₂ hino ⊢
    have h₃ : Keeps s.toStore (setUpInode m₂ newino flags mode) :=
      h₂.trans (Keeps.of_eq rfl rfl rfl)
    have hc₃ : (setUpInode m₂ newino flags mode).clock = s.clock + 1 := hc₂.trans hc₁
    generalize setUpInode m₂ newino flags mode = m₃ at h₃ hc₃ ⊢
    have h₄ := h₃.trans (keeps_kalloc m₃)
    have hc₄ := kalloc_clock m₃
    rcases hd : kalloc m₃ with ⟨_ | d, m₄⟩ <;> rw [hd] at h₄ hc₄
    · exact .inl ⟨m₄, h₄, rfl⟩
    dsimp only at hc₄ ⊢
    have h₅ := h₄.trans (keeps_kalloc m₄)
    have hc₅ := kalloc_clock m₄
    rcases hn : kalloc m₄ with ⟨_ | name, m₅⟩ <;> rw [hn] at h₅ hc₅
    · exact .inl ⟨m₅, h₅, rfl⟩
    dsimp only at hc₅ ⊢
    obtain ⟨-, hok₁⟩ := kalloc_some (by rw [hk])
    obtain ⟨rfl, hok₂⟩ := kalloc_some (by rw [hd])
    obtain ⟨-, hok₃⟩ := kalloc_some (by rw [hn])
    rw [h₃.kallocOk, hc₃] at hok₂
    rw [h₄.kallocOk, hc₄, hc₃] at hok₃
    rw [hc₃]
    have hrebuilds := rebuilds (enterDentry { s with toStore := m₅ } (s.clock + 1)
      (newDentry newino filename flags p) p) p newino
    refine .inr ⟨m₁, p, filename, newino, m₅, _, h₁, hr, hempty, hg, by rw [← hino]; rfl, ?_, ?_,
      h₅.kallocOk, rfl, ?_⟩
    · simp [hok₁, hok₂, hok₃]
    · omega
    · exact ⟨fun h hp => (hrebuilds.same h hp).trans (sameTree_store _ (le_refl _)),
        hrebuilds.clock, hrebuilds.kallocOk⟩

theorem sameTree_truncateFile (s : Fs) (d : ℕ) (flags : UInt32) :
    SameTree s (truncateFile s d flags) := by
  unfold truncateFile
  split_ifs
  · exact (sameTree_store s (keeps_releaseInodeBlocks _ _).clock).trans (sameTree_flush _)
  · exact SameTree.refl s

theorem sameTree_attachFile (s : Fs) (pathbuf d : ℕ) (flags : UInt32) :
    SameTree s (attachFile s pathbuf d flags).2 := by
  have hfiles : ∀ (s : Fs) (g : ℕ → File) (fds : ℕ → Option ℕ),
      SameTree s { s with file := g, fsFd := fds } := fun s g fds =>
    ⟨rfl, rfl, rfl, rfl, le_refl _, fun _ => rfl, fun _ => rfl, fun _ => rfl, fun _ => rfl,
      fun _ => .inl, rfl⟩
  have hk := (keeps_kalloc s.toStore).clock
  unfold attachFile
  rcases h : kalloc s.toStore with ⟨_ | file, m⟩ <;> rw [h] at hk
  · exact sameTree_store s hk
  · have hm : SameTree s { s with toStore := m } := sameTree_store s hk
    dsimp only
    unfold filesAllocFd
    split
    · next hfd =>
      split at hfd
      · cases hfd
        exact hm.trans ((hfiles _ _ s.fsFd).trans (sameTree_store _ (le_refl _)))
      · cases hfd
    · next hfd =>
      split at hfd
      · cases hfd
      · cases hfd
        exact hm.trans ((hfiles _ _ _).trans (sameTree_store _ (le_refl _)))

theorem sameTree_openDentry (s : Fs) (pathbuf d : ℕ) (flags : UInt32) :
    SameTree s (openDentry s pathbuf d flags).2 :=
  (sameTree_truncateFile s d flags).trans (sameTree_attachFile _ pathbuf d flags)

theorem DirTree.not_mem_of_clock (h : DirTree s kids) (hd : s.clock ≤ d) : d ∉ s.dentries := by
  intro hmem
  have := h.older d hmem
  omega

/-- What holds of the parent and the name that a path leaves to a new dentry. -/
def AtNew (s : Fs) (path : List UInt8) (P : ℕ → List UInt8 → Prop) : Prop :=
  ∀ p ∈ (resolveParent s path).1, (resolveParent s path).2 ≠ [] →
    getDentry s (resolveParent s path).2 p = none → P p (resolveParent s path).2

/-- The parent is a directory, and its block has room for the name beside the `others`. -/
def Room (s : Fs) (others : ℕ → List ℕ) (p : ℕ) (name : List UInt8) : Prop :=
  (s.dentry p).filetype = FTYPE_DIR ∧ ((s.dentry p).dirblock.isSome →
    direntsSize ((others p).map s.dentry) + (8 + paddedNameLen name.length) ≤ 4096)

/-- Once `ext3_mkdir` has the buffers that it checks, it gets those of the names of `.` and `..`. -/
def NamesGranted (s : Fs) (p : ℕ) : Prop :=
  let n := s.clock + if (s.dentry p).dirblock.isSome then 5 else 4
  (allocIno s.toStore).1.isSome →
    (∀ i ∈ [s.clock, s.clock + 1, s.clock + 2, n, n + 1, n + 2], s.kallocOk i) →
    s.kallocOk (n + 3) ∧ s.kallocOk (n + 4)

/-- The name that is left of the path fits `d_namelen`. -/
def ShortName (s : Fs) (path : List UInt8) : Prop := (resolveParent s path).2.length < 256

theorem AtNew.same {P : ℕ → List UInt8 → Prop} (hnew : AtNew s path P) (h : DirTree s kids)
    (hs : SameTree s s') : AtNew s' path P := by
  intro p hp hempty hget
  rw [hs.resolveParent h] at hp hempty hget ⊢
  exact hnew p hp hempty (hs.getDentry h (h.resolveParent_mem hp) ▸ hget)

theorem AtNew.children (hnew : AtNew s path (Room s s.subdirsOf)) (h : DirTree s kids) :
    AtNew s path (Room s kids) := by
  intro p hp hempty hget
  have hroom := hnew p hp hempty hget
  rwa [Room, h.subdirsOf_eq (h.resolveParent_mem hp)] at hroom

theorem Room.recLen {e : Dentry} {others : ℕ → List ℕ} {name : List UInt8}
    (hroom : Room s others p name) (he : e.namelen = UInt8.ofNat name.length)
    (hlen : name.length < 256) (hblock : (s.dentry p).dirblock.isSome) :
    direntsSize ((others p).map s.dentry) + e.recLen ≤ 4096 := by
  rw [Dentry.recLen, he, UInt8.toNat_ofNat_of_lt' hlen]
  exact hroom.2 hblock

theorem DirTree.createFile (h : DirTree s kids) (flags : UInt32) (mode : UInt16)
    (hroom : AtNew s path (Room s kids)) (hshort : ShortName s path) :
    (∃ t, createFile s path flags mode = (none, t) ∧ SameTree s t) ∨
      ∃ d t kids', createFile s path flags mode = (some d, t) ∧ DirTree t kids' ∧
        d ∈ t.dentries ∧ kids' d = [] ∧
        ((t.dentry d).filetype = if flags &&& O_DIRECTORY ≠ 0 then FTYPE_DIR else FTYPE_FILE) ∧
        ((AtNew s path fun p _ => NamesGranted s p) →
          (∀ i ∈ [t.clock, t.clock + 1, t.clock + 2], t.kallocOk i) →
          t.kallocOk (t.clock + 3) ∧ t.kallocOk (t.clock + 4)) := by
  rcases createFile_cases s path flags mode with ⟨m, hm, heq⟩ | ⟨m₁, p, filename, newino, m, t, hm₁,
    hres, hempty, hget, hino, hgranted, hclock, hok, heq, hbuilt⟩
  · exact Or.inl ⟨_, heq, sameTree_store s hm.clock⟩
  · have hs₁ : SameTree s { s with toStore := m₁ } := sameTree_store s hm₁.clock
    have hs : SameTree s { s with toStore := m } := sameTree_store s (by omega)
    rw [hs₁.resolveParent h] at hres
    have hp : p ∈ s.dentries := h.resolveParent_mem (by rw [hres])
    rw [hs₁.getDentry h hp] at hget
    have hat {P : ℕ → List UInt8 → Prop} (hnew : AtNew s path P) : P p filename := by
      unfold AtNew at hnew
      rw [hres] at hnew
      exact hnew p rfl hempty hget
    have hlen : filename.length < 256 := by
      unfold ShortName at hshort
      rwa [hres] at hshort
    have hname : (newDentry newino filename flags p).fileName = filename :=
      fileName_of_short rfl rfl hlen
    have hnew : s.clock + 1 ∉ s.dentries := h.not_mem_of_clock (Nat.le_succ _)
    have hpd : p ≠ s.clock + 1 := fun hpd => hnew (hpd ▸ hp)
    have htree := (h.same hs).enterDentry (e := newDentry newino filename flags p) hnew
      (show s.clock + 1 < m.clock by omega) hp rfl
      (fun c hc => by rw [hname]; exact getDentry_none h hp hget c hc) (hat hroom).1 rfl
      ((hat hroom).recLen rfl hlen)
    have hsame := hbuilt.same htree (mem_cons_of_mem _ hp)
    refine Or.inr ⟨s.clock + 1, t, _, heq, htree.same hsame, ?_, ?_, ?_, fun hnames => ?_⟩
    · rw [hsame.dentries]
      exact mem_cons_self
    · rw [update_of_ne (Ne.symm hpd), update_self]
    · rw [hsame.filetype]
      show (update s.dentry _ (newDentry newino filename flags p) _).filetype = _
      rw [update_self]
      rfl
    · have hp' : (Ext3.enterDentry { s with toStore := m } (s.clock + 1)
          (newDentry newino filename flags p) p).dentry p = s.dentry p := update_of_ne hpd _ _
      have htclock : t.clock = s.clock + if (s.dentry p).dirblock.isSome then 5 else 4 := by
        rw [hbuilt.clock, hp']
        show m.clock + _ = _
        split_ifs <;> omega
      have htok : t.kallocOk = s.kallocOk := hbuilt.kallocOk.trans hok
      rw [htok, htclock]
      intro hi
      refine hat hnames hino fun i hmem => ?_
      rcases mem_append.mp (show i ∈ [_, _, _] ++ [_, _, _] from hmem) with hmem | hmem
      · exact hgranted i hmem
      · exact hi i hmem

/-- The tree has some lists of children. -/
def WellFormed (s : Fs) : Prop := ∃ kids, DirTree s kids

theorem WellFormed.same (h : WellFormed s) (hs : SameTree s s') : WellFormed s' :=
  h.imp fun _ hk => hk.same hs

theorem WellFormed.ext3Open (h : WellFormed s)
    (hroom : flags &&& O_CREAT ≠ 0 → resolvePath s (trimTrailingSlash (cstr path)) = none →
      AtNew s (cstr path) (Room s s.subdirsOf))
    (hshort : ShortName s (cstr path)) : WellFormed (ext3Open s path flags mode).2 := by
  obtain ⟨kids, h⟩ := h
  have hk := (keeps_kalloc s.toStore).clock
  unfold Ext3.ext3Open
  dsimp only
  rcases hka : kalloc s.toStore with ⟨_ | pathbuf, m⟩ <;> rw [hka] at hk
  · exact ⟨kids, h.same (sameTree_store s hk)⟩
  · have hs : SameTree s { s with toStore := m } := sameTree_store s hk
    dsimp only
    rw [hs.resolvePath h]
    cases hr : resolvePath s (trimTrailingSlash (cstr path)) with
    | some d => exact ⟨kids, h.same (hs.trans (sameTree_openDentry _ pathbuf d flags))⟩
    | none =>
      dsimp only
      split_ifs with hcreat
      · have hroom' : AtNew { s with toStore := m } (cstr path) (Room s kids) :=
          ((hroom hcreat hr).children h).same h hs
        have hshort' : ShortName { s with toStore := m } (cstr path) := by
          unfold ShortName
          rw [hs.resolveParent h]
          exact hshort
        rcases (h.same hs).createFile flags mode hroom' hshort' with
          ⟨t, heq, hsame⟩ | ⟨d, t, kids', heq, ht, -⟩
        · rw [heq]
          exact ⟨kids, (h.same hs).same hsame⟩
        · rw [heq]
          exact ⟨kids', ht.same ((sameTree_flush t).trans (sameTree_openDentry _ _ _ _))⟩
      · exact ⟨kids, h.same hs⟩

/-- The dentry is on the list of its parent. -/
def Linked (s : Fs) (d : ℕ) : Prop := ∃ p ∈ (s.dentry d).parent, d ∈ s.subdirsOf p

theorem DirTree.of_linked (h : DirTree s kids) (hd : d ∈ s.dentries) (hl : Linked s d) :
    ∃ p ∈ s.dentries, (s.dentry d).parent = some p ∧ d ∈ kids p := by
  obtain ⟨p, hp, hmem⟩ := hl
  have hp' := h.parent_mem d hd p hp
  rw [h.subdirsOf_eq hp'] at hmem
  exact ⟨p, hp', hp, hmem⟩

theorem DirTree.linked (h : DirTree s kids) (hp : p ∈ s.dentries) (hd : d ∈ kids p) :
    Linked s d := by
  refine ⟨p, (h.kid p hp d hd).2, ?_⟩
  rw [h.subdirsOf_eq hp]
  exact hd

theorem SameTree.linked (hs : SameTree s s') (h : DirTree s kids) (hd : d ∈ s.dentries)
    (hl : Linked s d) : Linked s' d := by
  obtain ⟨p, hp, -, hmem⟩ := h.of_linked hd hl
  exact (h.same hs).linked (hs.dentries ▸ hp) hmem

theorem Below.congr (hb : Below s d p) (h : ∀ x, (s'.dentry x).parent = (s.dentry x).parent) :
    Below s' d p := by
  induction hb with
  | refl => exact Below.refl
  | parent hq _ ih => exact Below.parent ((h _).trans hq) ih

end Calls

section ShortPaths

end ShortPaths

inductive TreeCall where
  | openFile (path : List UInt8) (flags : UInt32) (mode : UInt16)
  | mkdir (path : List UInt8) (mode : UInt16)
  | unlink (path : List UInt8)
  | rmdir (path : List UInt8)
  | rename (oldpath newpath : List UInt8)

/-- What the calls do not check: a dentry is made or moved below a directory with room in its
block, a new directory gets the buffers of its names, a dentry that is removed or moved is on the
list of its parent, and it does not move below itself. -/
def Careful (s : Fs) : TreeCall → Prop
  | .openFile path flags _ =>
    flags &&& O_CREAT ≠ 0 → resolvePath s (trimTrailingSlash (cstr path)) = none →
      AtNew s (cstr path) (Room s s.subdirsOf)
  | .mkdir path _ => AtNew s (cstr path) (Room s s.subdirsOf) ∧
    AtNew s (cstr path) fun p _ => NamesGranted s p
  | .unlink path => ∀ d ∈ resolvePath s (cstr path), Linked s d
  | .rmdir path => ∀ d ∈ resolvePath s (cstr path), Linked s d
  | .rename oldpath newpath =>
    ∀ d ∈ resolvePath s (cstr oldpath), Linked s d ∧
      AtNew s (cstr newpath) (Room s fun p => (s.subdirsOf p).erase d) ∧
      ∀ p ∈ (resolveParent s (cstr newpath)).1, ¬ Below s d p

/-- The dentries form a tree below `rootdir`, and no call has written over other memory. -/
structure TreeOk (s : Fs) : Prop where
  toRoot : ∀ d ∈ s.dentries, ToRoot s d
  parent : ∀ p ∈ s.dentries, ∀ c ∈ s.subdirsOf p, c ∈ s.dentries ∧ (s.dentry c).parent = some p
  once : ∀ p ∈ s.dentries, (s.subdirsOf p).Nodup
  dirs : ∀ p ∈ s.dentries, ∀ c ∈ s.subdirsOf p, (s.dentry c).fileName = dotName ∨
    (s.dentry c).fileName = dotdotName ∨ (s.dentry p).filetype = FTYPE_DIR
  names : ∀ p ∈ s.dentries, ((s.subdirsOf p).map fun c => (s.dentry c).fileName).Nodup
  intact : s.overrun = false

theorem WellFormed.treeOk {s : Fs} (h : WellFormed s) : TreeOk s := by
  obtain ⟨kids, h⟩ := h
  constructor
  · exact h.toRoot
  · intro p hp
    rw [h.subdirsOf_eq hp]
    exact h.kid p hp
  · intro p hp
    rw [h.subdirsOf_eq hp]
    exact h.family.nodup hp
  · intro p hp
    rw [h.subdirsOf_eq hp]
    exact h.dirs p hp
  · intro p hp
    rw [h.subdirsOf_eq hp]
    exact h.names p hp
  · exact h.intact

instance (s : Fs) (d : ℕ) : Decidable (Linked s d) :=
  inferInstanceAs (Decidable (∃ p ∈ (s.dentry d).parent, d ∈ s.subdirsOf p))

instance (s : Fs) (path : List UInt8) (P : ℕ → List UInt8 → Prop) [∀ p name, Decidable (P p name)] :
    Decidable (AtNew s path P) :=
  inferInstanceAs (Decidable (∀ p ∈ (resolveParent s path).1, _))

instance (s : Fs) (others : ℕ → List ℕ) (p : ℕ) (name : List UInt8) :
    Decidable (Room s others p name) :=
  inferInstanceAs (Decidable (_ ∧ _))

instance (s : Fs) (p : ℕ) : Decidable (NamesGranted s p) :=
  inferInstanceAs (Decidable (_ → _ → _))

end Sodex.Ext3
