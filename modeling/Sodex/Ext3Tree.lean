import Sodex.Ext3Heap
import Sodex.LinkFamily
import Sodex.Runs

/-!
# The dentry tree of `ext3fs.c`

Every dentry heads the ring of its children. Creating, removing and moving a dentry edit
one or two rings, and these edits keep the dentries a tree as long as the dentry that is
taken off a ring is on one, children get a directory as parent, and a directory does not
move below itself. The calls check none of this.
-/
namespace Sodex.Ext3

open ByteMem LinkRing LinkFamily Dlist Runs List Option Function

/-- The name of a dentry: `d_namelen` bytes of `d_name`. -/
def Dentry.fileName (e : Dentry) : List UInt8 := (range e.namelen.toNat).map e.name

/-- Following `d_parent` from `d` reaches `rootdir`. -/
inductive ToRoot (s : Fs) : ℕ → Prop where
  | root : ToRoot s s.rootdir
  | parent {d p : ℕ} : (s.dentry d).parent = some p → ToRoot s p → ToRoot s d

/-- The dentry `p` is `d` or lies below it. -/
inductive Below (s : Fs) (d : ℕ) : ℕ → Prop where
  | refl : Below s d d
  | parent {c p : ℕ} : (s.dentry c).parent = some p → Below s d p → Below s d c

theorem layout_dentry : Layout DNode.subdirs DNode.child where
  head_inj _ _ h := DNode.subdirs.inj h
  item_inj _ _ h := DNode.child.inj h
  head_ne_item _ _ := nofun

/-- The dentries form a tree; `kids` lists the children of each. -/
structure DirTree (s : Fs) (kids : ℕ → List ℕ) : Prop where
  family : Family s.links DNode.subdirs DNode.child (· ∈ s.dentries) kids
  /-- A dentry is a buffer that was requested. -/
  older : ∀ d ∈ s.dentries, d < s.clock
  kid : ∀ p ∈ s.dentries, ∀ c ∈ kids p, c ∈ s.dentries ∧ (s.dentry c).parent = some p
  parent_mem : ∀ d ∈ s.dentries, ∀ p ∈ (s.dentry d).parent, p ∈ s.dentries
  rootdir : s.rootdir ∈ s.dentries
  cwd : s.cwd ∈ s.dentries
  root_parent : (s.dentry s.rootdir).parent = none
  toRoot : ∀ d ∈ s.dentries, ToRoot s d
  dirs : ∀ p ∈ s.dentries, ∀ c ∈ kids p, (s.dentry c).fileName = dotName ∨
    (s.dentry c).fileName = dotdotName ∨ (s.dentry p).filetype = FTYPE_DIR
  names : ∀ p ∈ s.dentries, ((kids p).map fun c => (s.dentry c).fileName).Nodup
  /-- The entries of a directory fit into its block. -/
  fits : ∀ p ∈ s.dentries, (s.dentry p).dirblock.isSome →
    direntsSize ((kids p).map s.dentry) ≤ 4096
  intact : s.overrun = false

/-- What the tree depends on is the same in both states. -/
structure SameTree (s s' : Fs) : Prop where
  dentries : s'.dentries = s.dentries
  links : s'.links = s.links
  rootdir : s'.rootdir = s.rootdir
  cwd : s'.cwd = s.cwd
  clock : s.clock ≤ s'.clock
  parent : ∀ d, (s'.dentry d).parent = (s.dentry d).parent
  filetype : ∀ d, (s'.dentry d).filetype = (s.dentry d).filetype
  namelen : ∀ d, (s'.dentry d).namelen = (s.dentry d).namelen
  name : ∀ d, (s'.dentry d).name = (s.dentry d).name
  /-- A block is given only to a directory without children. -/
  dirblock : ∀ d, (s'.dentry d).dirblock.isSome →
    (s.dentry d).dirblock.isSome ∨ s.links.next (.subdirs d) = .subdirs d
  overrun : s'.overrun = s.overrun

section SameTree

variable {s s' s'' : Fs} {kids : ℕ → List ℕ} {d p : ℕ}

theorem SameTree.refl (s : Fs) : SameTree s s :=
  ⟨rfl, rfl, rfl, rfl, le_refl _, fun _ => rfl, fun _ => rfl, fun _ => rfl, fun _ => rfl,
    fun _ => .inl, rfl⟩

theorem SameTree.trans (h : SameTree s s') (h' : SameTree s' s'') : SameTree s s'' where
  dentries := h'.dentries.trans h.dentries
  links := h'.links.trans h.links
  rootdir := h'.rootdir.trans h.rootdir
  cwd := h'.cwd.trans h.cwd
  clock := h.clock.trans h'.clock
  parent d := (h'.parent d).trans (h.parent d)
  filetype d := (h'.filetype d).trans (h.filetype d)
  namelen d := (h'.namelen d).trans (h.namelen d)
  name d := (h'.name d).trans (h.name d)
  dirblock d hd := (h'.dirblock d hd).elim (h.dirblock d) fun hempty => .inr (h.links ▸ hempty)
  overrun := h'.overrun.trans h.overrun

theorem SameTree.fileName (h : SameTree s s') (d : ℕ) :
    (s'.dentry d).fileName = (s.dentry d).fileName := by
  unfold Dentry.fileName
  rw [h.namelen, h.name]

theorem SameTree.recLen (h : SameTree s s') (d : ℕ) :
    (s'.dentry d).recLen = (s.dentry d).recLen := by
  rw [Dentry.recLen, Dentry.recLen, h.namelen]

theorem ToRoot.same (h : ToRoot s d) (hs : SameTree s s') : ToRoot s' d := by
  induction h with
  | root =>
    rw [← hs.rootdir]
    exact ToRoot.root
  | parent hp _ ih => exact ToRoot.parent ((hs.parent _).trans hp) ih

theorem DirTree.same (h : DirTree s kids) (hs : SameTree s s') : DirTree s' kids where
  family := by
    rw [hs.links, hs.dentries]
    exact h.family
  older d hd := by
    rw [hs.dentries] at hd
    exact (h.older d hd).trans_le hs.clock
  kid p hp c hc := by
    rw [hs.dentries] at hp ⊢
    rw [hs.parent]
    exact h.kid p hp c hc
  parent_mem d hd p hp := by
    rw [hs.dentries] at hd ⊢
    rw [hs.parent] at hp
    exact h.parent_mem d hd p hp
  rootdir := by
    rw [hs.rootdir, hs.dentries]
    exact h.rootdir
  cwd := by
    rw [hs.cwd, hs.dentries]
    exact h.cwd
  root_parent := by
    rw [hs.rootdir, hs.parent]
    exact h.root_parent
  toRoot d hd := by
    rw [hs.dentries] at hd
    exact (h.toRoot d hd).same hs
  dirs p hp c hc := by
    rw [hs.dentries] at hp
    rw [hs.fileName, hs.filetype]
    exact h.dirs p hp c hc
  names p hp := by
    rw [hs.dentries] at hp
    simp only [hs.fileName]
    exact h.names p hp
  fits p hp hblock := by
    rw [hs.dentries] at hp
    rcases hs.dirblock p hblock with hblock | hempty
    · simpa [direntsSize, comp_def, hs.recLen] using h.fits p hp hblock
    · have hkids := (h.family.ring p hp).next_head.symm.trans hempty
      cases hk : kids p with
      | nil => exact Nat.zero_le _
      | cons c cs => simp [hk] at hkids
  intact := hs.overrun.trans h.intact

/-- Only the volume, its tables and the heap change. -/
theorem sameTree_store (s : Fs) {m : Store} (h : s.clock ≤ m.clock) :
    SameTree s { s with toStore := m } :=
  ⟨rfl, rfl, rfl, rfl, h, fun _ => rfl, fun _ => rfl, fun _ => rfl, fun _ => rfl, fun _ => .inl, rfl⟩

theorem sameTree_flush (s : Fs) : SameTree s s.flush := sameTree_store s (le_refl _)

/-- A change of a dentry that the tree does not depend on. -/
theorem sameTree_modify (s : Fs) (d : ℕ) (f : Dentry → Dentry)
    (hparent : (f (s.dentry d)).parent = (s.dentry d).parent)
    (hfiletype : (f (s.dentry d)).filetype = (s.dentry d).filetype)
    (hnamelen : (f (s.dentry d)).namelen = (s.dentry d).namelen)
    (hname : (f (s.dentry d)).name = (s.dentry d).name)
    (hdirblock : (f (s.dentry d)).dirblock.isSome →
      (s.dentry d).dirblock.isSome ∨ s.links.next (.subdirs d) = .subdirs d) :
    SameTree s (s.modify d f) := by
  have h : ∀ {α : Type} (g : Dentry → α), g (f (s.dentry d)) = g (s.dentry d) →
      ∀ c, g ((s.modify d f).dentry c) = g (s.dentry c) := by
    intro α g hg c
    by_cases hc : c = d
    · subst hc
      simpa only [Fs.modify, update_self] using hg
    · simp only [Fs.modify, update_of_ne hc]
  refine ⟨rfl, rfl, rfl, rfl, le_refl _, h _ hparent, h _ hfiletype, h _ hnamelen, h (·.name) hname,
    fun c hc => ?_, rfl⟩
  by_cases hcd : c = d
  · subst hcd
    exact hdirblock (by simpa only [Fs.modify, update_self] using hc)
  · exact .inl (by simpa only [Fs.modify, update_of_ne hcd] using hc)

end SameTree

section Paths

variable {s s' : Fs} {kids : ℕ → List ℕ} {d p : ℕ} {path name : List UInt8}

section

variable (h : DirTree s kids)
include h

theorem DirTree.kids_length (hd : d ∈ s.dentries) :
    (kids d).length ≤ s.clock := by
  have hsub : kids d ⊆ range s.clock := by
    intro c hc
    exact mem_range.mpr (h.older c (h.kid d hd c hc).1)
  calc (kids d).length ≤ (range s.clock).length :=
        ((h.family.nodup hd).subperm hsub).length_le
    _ = s.clock := length_range

theorem DirTree.subdirsOf_eq (hd : d ∈ s.dentries) :
    s.subdirsOf d = kids d := by
  have hlen := h.kids_length hd
  unfold Fs.subdirsOf
  rw [(h.family.ring d hd).members_eq (by rw [length_map]; omega), List.map_map]
  exact map_id _

/-- The entries of a directory of the tree stay in its block. -/
theorem DirTree.rebuildDirblock {parent : Option ℕ} (hparent : ∀ p ∈ parent, p ∈ s.dentries) :
    SameTree s (rebuildDirblock s parent) := by
  unfold Ext3.rebuildDirblock
  cases parent with
  | none => exact SameTree.refl s
  | some d =>
    dsimp only
    cases hblock : (s.dentry d).dirblock with
    | none => exact SameTree.refl s
    | some b =>
      have hd := hparent d rfl
      have hfits := h.fits d hd (by rw [hblock]; rfl)
      rw [← h.subdirsOf_eq hd] at hfits
      let block := writeDirents ((s.subdirsOf d).map s.dentry) zeroTable 0
      have hmodify := sameTree_modify s d (fun e => { e with dirblock := some block }) rfl rfl rfl rfl
        fun _ => .inl (by rw [hblock]; rfl)
      have hoverrun : (s.overrun || decide (4096 < direntsSize ((s.subdirsOf d).map s.dentry))) =
          s.overrun := by
        simp [Nat.not_lt.mpr hfits]
      exact ⟨rfl, rfl, rfl, rfl, (keeps_markBlockDirty _ _ _).clock, hmodify.parent,
        hmodify.filetype, hmodify.namelen, hmodify.name, hmodify.dirblock, hoverrun⟩

theorem DirTree.getDentry_mem {c : ℕ} (hd : d ∈ s.dentries)
    (hc : getDentry s name d = some c) : c ∈ kids d := by
  unfold getDentry at hc
  rw [h.subdirsOf_eq hd] at hc
  exact mem_of_find?_eq_some hc

theorem DirTree.walkComponent_mem {c : ℕ} (hd : d ∈ s.dentries)
    (hc : walkComponent s name d = some c) : c ∈ s.dentries := by
  unfold walkComponent at hc
  split_ifs at hc
  · exact some.inj hc ▸ hd
  · exact some.inj hc ▸ hd
  · obtain rfl := some.inj hc
    cases hp : (s.dentry d).parent with
    | none => exact hd
    | some p => exact h.parent_mem d hd p hp
  · exact (h.kid d hd c (h.getDentry_mem hd hc)).1

theorem DirTree.dirWalk_mem {c : ℕ} (fuel : ℕ) (path : List UInt8)
    (hd : d ∈ s.dentries) (hc : dirWalk s fuel path d = some c) : c ∈ s.dentries := by
  induction fuel generalizing path d with
  | zero => exact some.inj hc ▸ hd
  | succ fuel ih =>
    rw [dirWalk] at hc
    split_ifs at hc
    · exact some.inj hc ▸ hd
    · split at hc
      · cases hc
      · next e he =>
        have hmem := h.walkComponent_mem hd he
        split at hc
        · exact some.inj hc ▸ hmem
        · exact ih _ hmem hc

theorem DirTree.resolvePath_mem {c : ℕ}
    (hc : resolvePath s path = some c) : c ∈ s.dentries := by
  unfold resolvePath at hc
  dsimp only at hc
  split_ifs at hc
  · exact some.inj hc ▸ h.cwd
  · exact some.inj hc ▸ h.rootdir
  · exact h.dirWalk_mem _ _ h.rootdir hc
  · exact h.dirWalk_mem _ _ h.cwd hc

theorem DirTree.resolveParent_mem {c : ℕ}
    (hc : (resolveParent s path).1 = some c) : c ∈ s.dentries := by
  unfold resolveParent at hc
  dsimp only at hc
  split at hc
  · exact some.inj hc ▸ h.cwd
  · split_ifs at hc
    · exact some.inj hc ▸ h.rootdir
    · exact h.resolvePath_mem hc

end

variable (hs : SameTree s s')
include hs

theorem SameTree.nameEqual (name : List UInt8) (d : ℕ) :
    nameEqual name (s'.dentry d) = nameEqual name (s.dentry d) := by
  unfold Ext3.nameEqual
  rw [hs.namelen, hs.name]

variable (h : DirTree s kids)
include h

theorem SameTree.getDentry (hd : d ∈ s.dentries) :
    getDentry s' name d = getDentry s name d := by
  unfold Ext3.getDentry
  rw [h.subdirsOf_eq hd, (h.same hs).subdirsOf_eq (hs.dentries ▸ hd)]
  simp only [hs.nameEqual]

theorem SameTree.walkComponent (hd : d ∈ s.dentries) :
    walkComponent s' name d = walkComponent s name d := by
  unfold Ext3.walkComponent
  rw [hs.parent, hs.getDentry h hd]

theorem SameTree.dirWalk (fuel : ℕ)
    (path : List UInt8) (hd : d ∈ s.dentries) :
    dirWalk s' fuel path d = dirWalk s fuel path d := by
  induction fuel generalizing path d with
  | zero => rfl
  | succ fuel ih =>
    rw [Ext3.dirWalk, Ext3.dirWalk]
    rw [hs.walkComponent h hd]
    split_ifs
    · rfl
    · cases he : Ext3.walkComponent s _ d with
      | none => rfl
      | some c =>
        dsimp only
        have hmem := h.walkComponent_mem hd he
        split
        · rfl
        · exact ih _ hmem

theorem SameTree.resolvePath (path : List UInt8) :
    resolvePath s' path = resolvePath s path := by
  unfold Ext3.resolvePath
  dsimp only
  rw [hs.cwd, hs.rootdir, hs.dirWalk h _ _ h.rootdir, hs.dirWalk h _ _ h.cwd]

theorem SameTree.resolveParent (path : List UInt8) :
    resolveParent s' path = resolveParent s path := by
  unfold Ext3.resolveParent
  dsimp only
  rw [hs.cwd, hs.rootdir]
  split
  · rfl
  · rw [hs.resolvePath h]

end Paths

section Names

variable {name : List UInt8} {e : Dentry}

theorem nameEqual_iff : nameEqual name e = true ↔ e.fileName = name := by
  unfold nameEqual Dentry.fileName nameBytes
  simp only [Bool.and_eq_true, decide_eq_true_eq, List.all_eq_true, List.mem_range]
  constructor
  · rintro ⟨hlen, hbytes⟩
    apply ext_getElem
    · rw [length_map, length_range, hlen]
    · intro i _ hi
      have := hbytes i hi
      rw [List.getD_eq_getElem _ _ hi] at this
      rw [getElem_map, getElem_range, this]
  · intro h
    have hlen : name.length = e.namelen.toNat := by
      rw [← h, length_map, length_range]
    refine ⟨hlen, fun i hi => ?_⟩
    subst h
    rw [List.getD_eq_getElem _ _ hi, List.getElem_map, List.getElem_range]

theorem nameBytes_map_range (name : List UInt8) :
    (range name.length).map (nameBytes name) = name := by
  apply ext_getElem
  · rw [length_map, length_range]
  · intro i _ hi
    rw [getElem_map, getElem_range, nameBytes, getD_eq_getElem _ _ hi]

/-- A name of at most 255 bytes is what `d_namelen` and `d_name` say. -/
theorem fileName_of_short (hname : e.name = nameBytes name)
    (hnamelen : e.namelen = UInt8.ofNat name.length) (hlen : name.length < 256) :
    e.fileName = name := by
  unfold Dentry.fileName
  rw [hname, hnamelen, UInt8.toNat_ofNat_of_lt' hlen, nameBytes_map_range]

theorem getDentry_none {s : Fs} {kids : ℕ → List ℕ} {d : ℕ} (h : DirTree s kids)
    (hd : d ∈ s.dentries) (hnone : getDentry s name d = none) :
    ∀ c ∈ kids d, (s.dentry c).fileName ≠ name := by
  intro c hc heq
  unfold getDentry at hnone
  rw [h.subdirsOf_eq hd, find?_eq_none] at hnone
  exact hnone c hc (nameEqual_iff.mpr heq)

end Names

section Edits

variable {s s' : Fs} {kids kids' : ℕ → List ℕ} {d p : ℕ} {e : Dentry}

theorem links_enterDentry (s : Fs) (d p : ℕ) (e : Dentry) : (enterDentry s d e p).links =
      ((s.links.init (.child d)).init (.subdirs d)).insertAfter (.child d) (.subdirs p) :=
  dlistInsertAfter_eq nofun

/-- What lies below a dentry of the tree that is in use hangs on one that is in use. -/
theorem DirTree.mem_of_below {c : ℕ} (h : DirTree s kids) (hb : Below s d c)
    (hc : c ∈ s.dentries) : d ∈ s.dentries := by
  induction hb with
  | refl => exact hc
  | parent hp _ ih => exact ih (h.parent_mem _ hc _ hp)

/-- From `s` to `s'` the dentry `d` becomes `e`, a child of `p`; no other dentry changes. -/
structure Hangs (s s' : Fs) (kids kids' : ℕ → List ℕ) (d p : ℕ) (e : Dentry) : Prop where
  self : s'.dentry d = e
  other : ∀ c, c ≠ d → s'.dentry c = s.dentry c
  mem : ∀ c, c ∈ s'.dentries ↔ c = d ∨ c ∈ s.dentries
  rootdir : s'.rootdir = s.rootdir
  cwd : s'.cwd = s.cwd
  overrun : s'.overrun = s.overrun
  older : d < s.clock ∧ s'.clock = s.clock
  family : Family s'.links DNode.subdirs DNode.child (· ∈ s'.dentries) kids'
  kids : ∀ q ∈ s'.dentries, ∀ c, c ∈ kids' q ↔
    q = p ∧ c = d ∨ q ∈ s.dentries ∧ c ≠ d ∧ c ∈ kids q

theorem direntsSize_le {ds ds' : List ℕ} (f : ℕ → Dentry) (hnodup : ds.Nodup) (hsub : ds ⊆ ds') :
    direntsSize (ds.map f) ≤ direntsSize (ds'.map f) := by
  obtain ⟨l, hperm, hl⟩ := hnodup.subperm hsub
  unfold direntsSize
  rw [← ((hperm.map f).map Dentry.recLen).sum_eq]
  exact ((hl.map f).map Dentry.recLen).sum_le_sum fun _ _ => Nat.zero_le _

/-- The edit keeps the tree if `p` is a directory without a child of the name of `e` and with room for
`e`, and `d` a dentry of the same kind as before that is not `rootdir`. -/
theorem DirTree.hangs (h : DirTree s kids) (hh : Hangs s s' kids kids' d p e)
    (hp : p ∈ s.dentries) (hparent : e.parent = some p) (hroot : d ≠ s.rootdir)
    (htoRoot : ∀ c ∈ s.dentries, ToRoot s' c)
    (hfiletype : d ∈ s.dentries → e.filetype = (s.dentry d).filetype)
    (hname : ∀ c ∈ kids p, (s.dentry c).fileName ≠ e.fileName)
    (hdir : (s.dentry p).filetype = FTYPE_DIR)
    (hblock : e.dirblock.isSome → d ∈ s.dentries ∧ (s.dentry d).dirblock.isSome)
    (hroom : (s.dentry p).dirblock.isSome →
      direntsSize (((kids p).erase d).map s.dentry) + e.recLen ≤ 4096) : DirTree s' kids' := by
  have hft : ∀ c ∈ s.dentries, (s'.dentry c).filetype = (s.dentry c).filetype := by
    intro c hc
    by_cases hcd : c = d
    · subst hcd
      rw [hh.self, hfiletype hc]
    · rw [hh.other c hcd]
  constructor
  · exact hh.family
  · intro c hc
    rw [hh.older.2]
    rcases (hh.mem c).mp hc with rfl | hc
    · exact hh.older.1
    · exact h.older c hc
  · intro q hq c hc
    rcases (hh.kids q hq c).mp hc with ⟨rfl, rfl⟩ | ⟨hq, hcd, hc⟩
    · exact ⟨(hh.mem c).mpr (.inl rfl), hh.self ▸ hparent⟩
    · rw [hh.other c hcd]
      exact ⟨(hh.mem c).mpr (.inr (h.kid q hq c hc).1), (h.kid q hq c hc).2⟩
  · intro c hc q hq
    rw [hh.mem]
    by_cases hcd : c = d
    · rw [hcd, hh.self, hparent] at hq
      exact .inr (some.inj hq ▸ hp)
    · rw [hh.other c hcd] at hq
      exact .inr (h.parent_mem c (((hh.mem c).mp hc).resolve_left hcd) q hq)
  · exact hh.rootdir ▸ (hh.mem _).mpr (.inr h.rootdir)
  · exact hh.cwd ▸ (hh.mem _).mpr (.inr h.cwd)
  · rw [hh.rootdir, hh.other _ hroot.symm]
    exact h.root_parent
  · intro c hc
    rcases (hh.mem c).mp hc with rfl | hc
    · exact ToRoot.parent (hh.self ▸ hparent) (htoRoot p hp)
    · exact htoRoot c hc
  · intro q hq c hc
    rcases (hh.kids q hq c).mp hc with ⟨rfl, rfl⟩ | ⟨hq, hcd, hc⟩
    · exact .inr (.inr ((hft q hp).trans hdir))
    · rw [hh.other c hcd, hft q hq]
      exact h.dirs q hq c hc
  · intro q hq
    rw [nodup_map_iff_inj_on (hh.family.nodup hq)]
    intro x hx y hy hxy
    rcases (hh.kids q hq x).mp hx with ⟨rfl, rfl⟩ | ⟨hq', hxd, hx⟩ <;>
      rcases (hh.kids q hq y).mp hy with ⟨hqp, rfl⟩ | ⟨-, hyd, hy⟩
    · rfl
    · rw [hh.self, hh.other y hyd] at hxy
      exact absurd hxy.symm (hname y hy)
    · rw [hh.self, hh.other x hxd] at hxy
      exact absurd hxy (hname x (hqp ▸ hx))
    · rw [hh.other x hxd, hh.other y hyd] at hxy
      exact inj_on_of_nodup_map (h.names q hq') hx hy hxy
  · intro q hq hqblock
    obtain ⟨hq', hqblock'⟩ : q ∈ s.dentries ∧ (s.dentry q).dirblock.isSome := by
      by_cases hqd : q = d
      · rw [hqd, hh.self] at hqblock
        exact hqd ▸ hblock hqblock
      · exact ⟨((hh.mem q).mp hq).resolve_left hqd, hh.other q hqd ▸ hqblock⟩
    have hold (cs : List ℕ) (hcs : d ∉ cs) : cs.map s'.dentry = cs.map s.dentry :=
      map_congr_left fun c hc => hh.other c fun hcd => hcs (hcd ▸ hc)
    have hnodup := hh.family.nodup hq
    by_cases hqp : q = p
    · subst hqp
      have hd : d ∉ (kids q).erase d := (h.family.nodup hq').not_mem_erase
      have hsub : kids' q ⊆ d :: (kids q).erase d := by
        intro c hc
        rcases (hh.kids q hq c).mp hc with ⟨-, rfl⟩ | ⟨-, hcd, hc⟩
        · exact mem_cons_self
        · exact mem_cons_of_mem _ ((mem_erase_of_ne hcd).mpr hc)
      refine (direntsSize_le s'.dentry hnodup hsub).trans ?_
      rw [map_cons, hold _ hd, hh.self, add_comm] at *
      exact hroom hqblock'
    · have hd : d ∉ kids' q := fun hdq => by
        rcases (hh.kids q hq d).mp hdq with ⟨hqp', -⟩ | ⟨-, hdd, -⟩
        · exact hqp hqp'
        · exact hdd rfl
      rw [hold _ hd]
      refine (direntsSize_le s.dentry hnodup fun c hc => ?_).trans (h.fits q hq' hqblock')
      rcases (hh.kids q hq c).mp hc with ⟨hqp', -⟩ | ⟨-, -, hc⟩
      · exact absurd hqp' hqp
      · exact hc
  · exact hh.overrun.trans h.intact

/-- Giving `d` a parent that is not below it leaves every way to the root open. -/
theorem ToRoot.reparent {c : ℕ} (hh : Hangs s s' kids kids' d p e) (hparent : e.parent = some p)
    (hbelow : ¬ Below s d p) (hp : ToRoot s p) (hc : ToRoot s c) : ToRoot s' c := by
  have hold : ∀ {x q}, x ≠ d → (s.dentry x).parent = some q → (s'.dentry x).parent = some q :=
    fun hx hq => (hh.other _ hx).symm ▸ hq
  have hrootdir := hh.rootdir
  have hp' : ToRoot s' p := by
    clear hc hparent hh
    induction hp with
    | root => exact hrootdir ▸ ToRoot.root
    | @parent x q hq _ ih =>
      have hxd : x ≠ d := fun hxd => hbelow (hxd ▸ Below.refl)
      exact ToRoot.parent (hold hxd hq) (ih fun hb => hbelow (Below.parent hq hb))
  induction hc with
  | root => exact hrootdir ▸ ToRoot.root
  | @parent x q hq _ ih =>
    by_cases hxd : x = d
    · subst hxd
      exact ToRoot.parent (hh.self ▸ hparent) hp'
    · exact ToRoot.parent (hold hxd hq) ih

variable (h : DirTree s kids)
include h

/-- A new dentry goes in front of the children of `p`. -/
theorem DirTree.enterDentry (hnew : d ∉ s.dentries) (hclock : d < s.clock)
    (hp : p ∈ s.dentries) (hparent : e.parent = some p)
    (hname : ∀ c ∈ kids p, (s.dentry c).fileName ≠ e.fileName)
    (hdir : (s.dentry p).filetype = FTYPE_DIR) (hblock : e.dirblock = none)
    (hroom : (s.dentry p).dirblock.isSome →
      direntsSize ((kids p).map s.dentry) + e.recLen ≤ 4096) :
    DirTree (enterDentry s d e p)
      (update (update kids d []) p (d :: kids p)) := by
  have hpd : p ≠ d := fun hpd => hnew (hpd ▸ hp)
  have hfresh : ∀ q ∈ s.dentries, d ∉ kids q := fun q hq hd => hnew (h.kid q hq d hd).1
  have hself : update kids d [] p = kids p := update_of_ne hpd _ _
  have hh : Hangs s (Ext3.enterDentry s d e p) kids
      (update (update kids d []) p (d :: kids p)) d p e := by
    refine ⟨update_self _ _ _, fun c hc => update_of_ne hc _ _,
      fun c => mem_cons, rfl, rfl, rfl, ⟨hclock, rfl⟩, ?_, fun q hq c => ?_⟩
    · rw [links_enterDentry, ← hself]
      have hbirth := (h.family.init_item layout_dentry hfresh).birth layout_dentry hnew
      refine (hbirth.insert layout_dentry (.inl hp) fun q hq hd => ?_).mono
        fun q hq => (mem_cons.mp hq).symm
      rw [mem_update_nil] at hd
      exact hfresh q (hq.resolve_right hd.1) hd.2
    · rw [← hself, mem_update_cons, mem_update_nil]
      refine or_congr_right ⟨fun ⟨hqd, hc⟩ => ?_, fun ⟨hq, _, hc⟩ => ⟨fun hqd => ?_, hc⟩⟩
      · have hq := (mem_cons.mp hq).resolve_left hqd
        exact ⟨hq, fun hcd => hfresh q hq (hcd ▸ hc), hc⟩
      · exact hnew (hqd ▸ hq)
  have hbelow : ¬ Below s d p := fun hb => hnew (h.mem_of_below hb hp)
  exact h.hangs hh hp hparent (fun hd => hnew (hd ▸ h.rootdir))
    (fun c hc => ToRoot.reparent hh hparent hbelow (h.toRoot p hp) (h.toRoot c hc))
    (fun hd => absurd hd hnew) hname hdir (fun hsome => by simp [hblock] at hsome)
    (by rwa [erase_of_not_mem (hfresh p hp)])

/-- After its removal a dentry is on no list. -/
theorem DirTree.not_mem_erase (hp : p ∈ s.dentries) (hd : d ∈ kids p) :
    ∀ q ∈ s.dentries, d ∉ update kids p ((kids p).erase d) q := by
  intro q hq hdq
  obtain ⟨hne, hdq⟩ := (mem_update_erase (h.family.nodup hp)).mp hdq
  exact hne ⟨h.family.apart q p d hq hp hdq hd, rfl⟩

theorem DirTree.rename (hp : p ∈ s.dentries) (hd : d ∈ kids p)
    (hparent : e.parent = (s.dentry d).parent) (hfiletype : e.filetype = (s.dentry d).filetype)
    (hname : ∀ c ∈ kids p, (s.dentry c).fileName ≠ e.fileName)
    (hdir : (s.dentry p).filetype = FTYPE_DIR) (hblock : e.dirblock = (s.dentry d).dirblock)
    (hroom : (s.dentry p).dirblock.isSome →
      direntsSize (((kids p).erase d).map s.dentry) + e.recLen ≤ 4096) :
    DirTree { s with dentry := update s.dentry d e } kids := by
  obtain ⟨hmem, hdp⟩ := h.kid p hp d hd
  have hh : Hangs s { s with dentry := update s.dentry d e } kids kids d p e := by
    refine ⟨update_self _ _ _, fun c hc => update_of_ne hc _ _,
      fun c => (or_iff_right_of_imp fun hc => hc ▸ hmem).symm, rfl, rfl, rfl, ⟨h.older d hmem, rfl⟩,
      h.family, fun q hq c => ⟨fun hc => ?_, ?_⟩⟩
    · by_cases hcd : c = d
      · exact .inl ⟨h.family.apart q p d hq hp (hcd ▸ hc) hd, hcd⟩
      · exact .inr ⟨hq, hcd, hc⟩
    · rintro (⟨rfl, rfl⟩ | ⟨-, -, hc⟩)
      · exact hd
      · exact hc
  refine h.hangs hh hp (hparent.trans hdp) (fun hroot => ?_) (fun c hc => ?_) (fun _ => hfiletype)
    hname hdir (fun hsome => ⟨hmem, hblock ▸ hsome⟩) hroom
  · rw [hroot, h.root_parent] at hdp
    cases hdp
  · -- every dentry keeps its parent
    have hroot := h.toRoot c hc
    clear hc
    induction hroot with
    | root => exact ToRoot.root
    | @parent x q hq _ ih =>
      refine ToRoot.parent ?_ ih
      by_cases hxd : x = d
      · rw [hxd, hh.self, hparent, ← hxd, hq]
      · rw [hh.other x hxd, hq]

end Edits

end Sodex.Ext3
