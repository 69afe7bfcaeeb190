import Sodex.LinkRing

/-!
# The double linked lists of `list.h`

`init_dlist_set` and `dlist_remove` are `Links.init` and `Links.unlink`. Insertion
treats a list of one node apart; the result is the same as that of the general case.
-/
namespace Sodex.Dlist

open LinkRing

variable {ν : Type*} [DecidableEq ν]

def dlistInsertAfter (L : Links ν) (list elist : ν) : Links ν :=
  if L.next elist = elist then
    { next := Function.update (Function.update L.next elist list) list elist
      prev := Function.update (Function.update L.prev elist list) list elist }
  else L.insertAfter list elist

variable {L : Links ν} {x e : ν}

theorem dlistInsertAfter_eq (h : x ≠ e) : dlistInsertAfter L x e = L.insertAfter x e := by
  unfold dlistInsertAfter
  split_ifs with hsingle
  · rw [Links.insertAfter, hsingle, Function.update_comm h]
  · rfl

end Sodex.Dlist
