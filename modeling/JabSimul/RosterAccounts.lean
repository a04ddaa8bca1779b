import JabSimul.XHashSpec
import JabSimul.ThreadRefinement
import Mathlib.Algebra.BigOperators.Group.Finset.Piecewise

/-!
The accounts of the rosters: the counters of the users and of the whole program,
and the contents of every roster as the items that the server sent, one after
the other.
-/
namespace JabSimul

namespace World

def rosterEntries (w : World) (u : UserPtr) : List (RosterPtr × RosterPtr) :=
  ((w.users u).rosterHash.map xhashWalk).getD []

/-- The item with a jid. -/
def rosterItemOf (w : World) (u : UserPtr) (jid : CString) : Option RosterItem :=
  ((w.users u).rosterHash.bind fun h => xhashGet w.rosterText h jid).map fun ri =>
    (w.rosterItems ri).item

/-- The item with a jid, without what presences say about it. -/
def rosterContents (w : World) (u : UserPtr) (jid : CString) : Option RosterItem :=
  ((w.users u).rosterHash.bind fun h => xhashGet w.rosterText h jid).map fun ri =>
    { (w.rosterItems ri).item with available := false }

/-- Every roster is a sound table of live items that no other roster holds, and
the counter of its user counts them. -/
structure Tables (w : World) : Prop where
  sound : ∀ u h, (w.users u).rosterHash = some h → h.Sound w.rosterText
  keyed : ∀ u, ∀ e ∈ w.rosterEntries u, e.1 = e.2
  alive : ∀ u, ∀ e ∈ w.rosterEntries u, (w.rosterItems e.2).live = true ∧ e.2 < w.nextPtr
  apart : ∀ u v, ∀ e ∈ w.rosterEntries u, ∀ e' ∈ w.rosterEntries v, e.2 = e'.2 → u = v
  counted : ∀ u, (w.users u).rosterCount = (w.rosterEntries u).length

/-- The counter of the program counts all of them. -/
structure Rosters (w : World) : Prop extends Tables w where
  total : w.globals.globRosterCount = ∑ u ∈ Finset.range w.usersCount, (w.users u).rosterCount

end World

/-- The item as it is without any presence. -/
def RosterItem.unseen (ri : RosterItem) : RosterItem := { ri with available := false }

/-- What one item of a stanza makes of the contents of a roster. -/
def rosterApply (privList : List PrivRosterItem) (contents : CString → Option RosterItem)
    (cur : XmlNode) : CString → Option RosterItem :=
  let ri := rosterItemFromXml privList cur
  Function.update contents ri.jid (if isRemoval cur then none else some ri)

section Primitives

variable {w : World} {u : UserPtr} {h : RosterHash} {p : RosterPtr}

theorem rosterText_delete : (rosterItemDelete w p).rosterText = w.rosterText := by
  funext q
  by_cases same : q = p
  · subst same
    simp [World.rosterText, rosterItemDelete]
  · simp [World.rosterText, rosterItemDelete, same]

theorem item_delete (q : RosterPtr) :
    ((rosterItemDelete w p).rosterItems q).item = (w.rosterItems q).item := by
  by_cases same : q = p
  · subst same
    simp [rosterItemDelete]
  · simp [rosterItemDelete, same]

theorem live_delete {q : RosterPtr} (other : q ≠ p) :
    ((rosterItemDelete w p).rosterItems q).live = (w.rosterItems q).live := by
  simp [rosterItemDelete, other]

theorem rosterEntries_of_hash (hash : (w.users u).rosterHash = some h) :
    w.rosterEntries u = xhashWalk h := by
  rw [World.rosterEntries, hash]
  rfl

theorem rosterItemOf_eq_get (hash : (w.users u).rosterHash = some h) (jid : CString) :
    w.rosterItemOf u jid = (xhashGet w.rosterText h jid).map fun ri =>
      (w.rosterItems ri).item := by
  rw [World.rosterItemOf, hash]
  rfl

theorem rosterContents_eq (w : World) (u : UserPtr) :
    w.rosterContents u = fun jid => (w.rosterItemOf u jid).map RosterItem.unseen := by
  funext jid
  rw [World.rosterContents, World.rosterItemOf, Option.map_map]
  rfl

theorem isSome_rosterContents (w : World) (u : UserPtr) (jid : CString) :
    (w.rosterContents u jid).isSome = (w.rosterItemOf u jid).isSome := by
  rw [rosterContents_eq, Option.isSome_map]

theorem rosterContents_of_hash (hash : (w.users u).rosterHash = some h) (jid : CString) :
    w.rosterContents u jid = (xhashGet w.rosterText h jid).map fun ri =>
      { (w.rosterItems ri).item with available := false } := by
  rw [World.rosterContents, hash]
  rfl

/-- An item that no roster holds goes away. -/
theorem World.Tables.delete (tables : w.Tables)
    (free : ∀ v, ∀ e ∈ w.rosterEntries v, e.2 ≠ p) : (rosterItemDelete w p).Tables := by
  refine ⟨fun v h hash => ?_, tables.keyed, fun v e mem => ?_, tables.apart, tables.counted⟩
  · rw [rosterText_delete]
    exact tables.sound v h hash
  · rw [live_delete (free v e mem)]
    exact tables.alive v e mem

theorem rosterItemOf_delete : (rosterItemDelete w p).rosterItemOf = w.rosterItemOf := by
  funext v jid
  simp only [World.rosterItemOf, rosterText_delete, item_delete]
  rfl

/-- A live item that no roster holds. -/
structure World.Unlinked (w : World) (p : RosterPtr) : Prop where
  live : (w.rosterItems p).live = true
  old : p < w.nextPtr
  free : ∀ v, ∀ e ∈ w.rosterEntries v, e.2 ≠ p

section Alloc

variable {ri : RosterItem}

theorem rosterItems_alloc (other : p ≠ w.nextPtr) :
    (w.allocRosterItem ri).rosterItems p = w.rosterItems p := by
  simp [World.allocRosterItem, other]

theorem rosterItems_alloc_self : (w.allocRosterItem ri).rosterItems w.nextPtr = ⟨ri, true⟩ := by
  simp [World.allocRosterItem]

theorem World.Tables.text_alloc (tables : w.Tables) {v : UserPtr} {e : RosterPtr × RosterPtr}
    (mem : e ∈ w.rosterEntries v) :
    (w.allocRosterItem ri).rosterText e.1 = w.rosterText e.1 := by
  have old := (tables.alive v e mem).2
  rw [← tables.keyed v e mem] at old
  rw [World.rosterText, rosterItems_alloc (Nat.ne_of_lt old)]
  rfl

theorem World.Tables.alloc (tables : w.Tables) (ri : RosterItem) :
    (w.allocRosterItem ri).Tables := by
  refine ⟨fun v h hash => ?_, tables.keyed, fun v e mem => ?_, tables.apart, tables.counted⟩
  · refine (tables.sound v h hash).congr fun e mem => tables.text_alloc (v := v) ?_
    rwa [rosterEntries_of_hash (w := w) hash]
  · obtain ⟨live, old⟩ := tables.alive v e mem
    rw [rosterItems_alloc (Nat.ne_of_lt old)]
    exact ⟨live, Nat.lt_succ_of_lt old⟩

theorem World.Tables.unlinked_alloc (tables : w.Tables) :
    (w.allocRosterItem ri).Unlinked w.nextPtr := by
  refine ⟨by rw [rosterItems_alloc_self], Nat.lt_succ_self _, fun v e mem => ?_⟩
  exact Nat.ne_of_lt (tables.alive v e mem).2

theorem World.Tables.items_alloc (tables : w.Tables) :
    (w.allocRosterItem ri).rosterItemOf = w.rosterItemOf := by
  funext v jid
  cases hash : (w.users v).rosterHash with
  | none => simp [World.rosterItemOf, World.allocRosterItem, hash]
  | some h =>
    have sound := tables.sound v h hash
    have mem : ∀ e ∈ xhashWalk h, e ∈ w.rosterEntries v := fun e mem => by
      rwa [rosterEntries_of_hash hash]
    rw [rosterItemOf_eq_get hash, rosterItemOf_eq_get (w := w.allocRosterItem ri) hash,
      sound.get_congr fun e inside => tables.text_alloc (mem e inside)]
    refine Option.map_congr fun q got => ?_
    obtain ⟨k, inside, _⟩ := sound.get_iff.mp got
    rw [rosterItems_alloc (Nat.ne_of_lt (tables.alive v _ (mem _ inside)).2)]

end Alloc

section Replace

variable {h' : RosterHash} {d : Int}

/-- A roster is exchanged for another one, and the counters for other ones. -/
def World.replaceRoster (w : World) (u : UserPtr) (h : RosterHash) (d : Int) : World :=
  (w.setRosterHash u (some h)).addRosterCount u d

theorem replaceRoster_user : ((w.replaceRoster u h' d).users u).rosterHash = some h' ∧
    ((w.replaceRoster u h' d).users u).rosterCount = (w.users u).rosterCount + d := by
  simp [World.replaceRoster, World.setRosterHash, World.addRosterCount, World.updUser,
    World.updGlobals]

theorem replaceRoster_other {v : UserPtr} (other : v ≠ u) :
    (w.replaceRoster u h' d).users v = w.users v := by
  simp [World.replaceRoster, World.setRosterHash, World.addRosterCount, World.updUser,
    World.updGlobals, other]

theorem replaceRoster_entries : (w.replaceRoster u h' d).rosterEntries u = xhashWalk h' :=
  rosterEntries_of_hash replaceRoster_user.1

theorem replaceRoster_entries_other {v : UserPtr} (other : v ≠ u) :
    (w.replaceRoster u h' d).rosterEntries v = w.rosterEntries v := by
  rw [World.rosterEntries, replaceRoster_other other]
  rfl

theorem replaceRoster_items (v : UserPtr) (jid : CString) :
    (w.replaceRoster u h' d).rosterItemOf v jid =
      if v = u then (xhashGet w.rosterText h' jid).map fun ri =>
        (w.rosterItems ri).item
      else w.rosterItemOf v jid := by
  split
  · subst v
    exact rosterItemOf_eq_get replaceRoster_user.1 jid
  · rename_i other
    rw [World.rosterItemOf, replaceRoster_other other]
    rfl

theorem World.Tables.replace (tables : w.Tables)
    (sound : h'.Sound w.rosterText)
    (entries : ∀ e ∈ xhashWalk h', e ∈ w.rosterEntries u ∨ e.1 = e.2 ∧ w.Unlinked e.2)
    (counted : ((xhashWalk h').length : Int) = (w.users u).rosterCount + d) :
    (w.replaceRoster u h' d).Tables := by
  have others : ∀ v ≠ u, ∀ e ∈ (w.replaceRoster u h' d).rosterEntries v, e ∈ w.rosterEntries v :=
    fun v other e mem => by rwa [replaceRoster_entries_other other] at mem
  have own : ∀ e ∈ (w.replaceRoster u h' d).rosterEntries u,
      e ∈ w.rosterEntries u ∨ e.1 = e.2 ∧ w.Unlinked e.2 := fun e mem => by
    rw [replaceRoster_entries] at mem
    exact entries e mem
  refine ⟨fun v h hash => ?_, fun v e mem => ?_, fun v e mem => ?_, ?_, fun v => ?_⟩
  · by_cases same : v = u
    · subst same
      rw [replaceRoster_user.1] at hash
      cases hash
      exact sound
    · rw [replaceRoster_other same] at hash
      exact tables.sound v h hash
  · by_cases same : v = u
    · subst same
      rcases own e mem with old | ⟨keyed, _⟩
      · exact tables.keyed v e old
      · exact keyed
    · exact tables.keyed v e (others v same e mem)
  · by_cases same : v = u
    · subst same
      rcases own e mem with old | ⟨_, unlinked⟩
      · exact tables.alive v e old
      · exact ⟨unlinked.live, unlinked.old⟩
    · exact tables.alive v e (others v same e mem)
  · have mixed : ∀ v ≠ u, ∀ e ∈ (w.replaceRoster u h' d).rosterEntries u,
        ∀ e' ∈ (w.replaceRoster u h' d).rosterEntries v, e.2 ≠ e'.2 := by
      intro v other e mem e' mem' same
      have old := others v other e' mem'
      rcases own e mem with before | ⟨_, unlinked⟩
      · exact other (tables.apart u v e before e' old same).symm
      · exact unlinked.free v e' old same.symm
    intro v v' e mem e' mem' same
    by_contra differ
    by_cases first : v = u
    · subst first
      exact mixed v' (Ne.symm differ) e mem e' mem' same
    · by_cases second : v' = u
      · subst second
        exact mixed v first e' mem' e mem same.symm
      · exact differ (tables.apart v v' e (others v first e mem) e' (others v' second e' mem') same)
  · by_cases same : v = u
    · subst same
      rw [replaceRoster_user.2, replaceRoster_entries, counted]
    · rw [replaceRoster_other same, replaceRoster_entries_other same]
      exact tables.counted v

end Replace

/-- What taking an item out of a roster leaves. -/
structure Dropped (u : UserPtr) (ri : RosterPtr) (w w' : World) : Prop where
  tables : w'.Tables
  unlinked : w'.Unlinked ri
  absent : ∃ h, (w'.users u).rosterHash = some h ∧
    xhashGet w'.rosterText h (w.rosterText ri) = none
  item : w'.rosterItems ri = w.rosterItems ri
  items : ∀ v jid, w'.rosterItemOf v jid =
    if v = u ∧ jid = w.rosterText ri then none else w.rosterItemOf v jid

theorem rosterDropOld_found {ri oldri : RosterPtr}
    (found : xhashGet w.rosterText h (w.rosterText ri) = some oldri) :
    rosterDropOld u h ri w = rosterItemDelete (w.replaceRoster u
      (xhashZap w.rosterText h (w.rosterText ri)) (-1)) oldri := by
  rw [rosterDropOld, found]
  rfl

theorem rosterDropOld_spec (tables : w.Tables)
    (hash : (w.users u).rosterHash = some h) {ri : RosterPtr} (unlinked : w.Unlinked ri) :
    Dropped u ri w (rosterDropOld u h ri w) := by
  have sound := tables.sound u h hash
  cases found : xhashGet w.rosterText h (w.rosterText ri) with
  | none =>
    have same : rosterDropOld u h ri w = w := by rw [rosterDropOld, found]
    rw [same]
    refine ⟨tables, unlinked, ⟨h, hash, found⟩, rfl, fun v jid => ?_⟩
    split
    · rename_i hit
      rw [hit.1, hit.2, rosterItemOf_eq_get hash, found]
      rfl
    · rfl
  | some oldri =>
    rw [rosterDropOld_found found]
    obtain ⟨k, mem, text⟩ := sound.get_iff.mp found
    have linked : (k, oldri) ∈ w.rosterEntries u := by rwa [rosterEntries_of_hash hash]
    have walk := sound.xhashWalk_zap (w.rosterText ri)
    have kept : ∀ e ∈ xhashWalk (xhashZap w.rosterText h (w.rosterText ri)),
        e ∈ w.rosterEntries u ∧ w.rosterText e.1 ≠ w.rosterText ri := by
      intro e inside
      rw [walk, List.mem_filter, decide_eq_true_iff] at inside
      rwa [rosterEntries_of_hash hash]
    have counted := sound.length_zap found
    have all := tables.counted u
    rw [rosterEntries_of_hash hash] at all
    have replaced := tables.replace (sound.zap (w.rosterText ri)) (d := -1)
      (fun e mem => .inl (kept e mem).1) (by omega)
    have free : ∀ v, ∀ e ∈ (w.replaceRoster u (xhashZap w.rosterText h (w.rosterText ri))
        (-1)).rosterEntries v, e.2 ≠ oldri := by
      intro v e mem same
      by_cases own : v = u
      · subst own
        rw [replaceRoster_entries] at mem
        obtain ⟨before, other⟩ := kept e mem
        have key : e.1 = k :=
          (tables.keyed v e before).trans (same.trans (tables.keyed v _ linked).symm)
        exact other (by rw [key, text])
      · rw [replaceRoster_entries_other own] at mem
        exact own (tables.apart v u e mem _ linked same)
    have differ : ri ≠ oldri := fun same => unlinked.free u _ linked same.symm
    refine ⟨replaced.delete free, ⟨?_, unlinked.old, fun v e mem => ?_⟩,
      ⟨_, replaceRoster_user.1, ?_⟩, ?_, fun v jid => ?_⟩
    · rw [live_delete differ]
      exact unlinked.live
    · by_cases own : v = u
      · subst own
        change e ∈ (w.replaceRoster v _ (-1)).rosterEntries v at mem
        rw [replaceRoster_entries] at mem
        exact unlinked.free v e (kept e mem).1
      · change e ∈ (w.replaceRoster u _ (-1)).rosterEntries v at mem
        rw [replaceRoster_entries_other own] at mem
        exact unlinked.free v e mem
    · rw [rosterText_delete]
      change xhashGet w.rosterText _ _ = none
      rw [sound.get_zap, if_pos rfl]
    · simp [rosterItemDelete, differ, World.replaceRoster, World.setRosterHash,
        World.addRosterCount, World.updUser, World.updGlobals]
    · rw [rosterItemOf_delete, replaceRoster_items]
      by_cases own : v = u
      · subst own
        rw [if_pos rfl, sound.get_zap]
        by_cases hit : jid = w.rosterText ri
        · rw [if_pos hit, if_pos ⟨rfl, hit⟩]
          rfl
        · rw [if_neg hit, if_neg fun both => hit both.2, rosterItemOf_eq_get hash]
      · rw [if_neg own, if_neg fun both => own both.1]

/-- An item with a new jid is put into a roster. -/
theorem World.Tables.put (tables : w.Tables)
    (hash : (w.users u).rosterHash = some h) (unlinked : w.Unlinked p)
    (absent : xhashGet w.rosterText h (w.rosterText p) = none) :
    (w.replaceRoster u (xhashPut w.rosterText h p p) 1).Tables := by
  have sound := tables.sound u h hash
  have walk := sound.xhashWalk_put p absent
  have counted := walk.length_eq
  have all := tables.counted u
  rw [rosterEntries_of_hash hash] at all
  refine tables.replace (sound.put p absent) (fun e mem => ?_) ?_
  · rcases List.mem_cons.mp (walk.mem_iff.mp mem) with rfl | old
    · exact .inr ⟨rfl, unlinked⟩
    · exact .inl (by rwa [rosterEntries_of_hash hash])
  · rw [List.length_cons] at counted
    omega

theorem items_put (tables : w.Tables) (hash : (w.users u).rosterHash = some h)
    (absent : xhashGet w.rosterText h (w.rosterText p) = none) (v : UserPtr) (jid : CString) :
    (w.replaceRoster u (xhashPut w.rosterText h p p) 1).rosterItemOf v jid =
      if v = u ∧ jid = w.rosterText p then
        some (w.rosterItems p).item
      else w.rosterItemOf v jid := by
  rw [replaceRoster_items]
  by_cases own : v = u
  · subst own
    rw [if_pos rfl, (tables.sound v h hash).get_put absent]
    by_cases hit : jid = w.rosterText p
    · rw [if_pos hit, if_pos ⟨rfl, hit⟩]
      rfl
    · rw [if_neg hit, if_neg fun both => hit both.2, rosterItemOf_eq_get hash]
  · rw [if_neg own, if_neg fun both => own both.1]

end Primitives

section Store

variable {w : World} {u : UserPtr}

/-- One item of a stanza. -/
theorem rosterStoreItem_spec (tables : w.Tables)
    (hashed : (w.users u).rosterHash.isSome) (cur : XmlNode) :
    (rosterStoreItem u w cur).Tables ∧ (rosterStoreItem u w cur).rosterItemOf =
      Function.update w.rosterItemOf u
        (rosterApply (w.users u).privRost.privRostList (w.rosterItemOf u) cur) := by
  obtain ⟨h, hash⟩ := Option.isSome_iff_exists.mp hashed
  simp only [rosterStoreItem, hash, rosterApply]
  generalize rosterItemFromXml (w.users u).privRost.privRostList cur = ri
  have dropped := rosterDropOld_spec (tables.alloc ri) (u := u) hash
    tables.unlinked_alloc
  generalize rosterDropOld u h w.nextPtr (w.allocRosterItem ri) = d at dropped ⊢
  have text : (w.allocRosterItem ri).rosterText w.nextPtr = ri.jid := by
    rw [World.rosterText, rosterItems_alloc_self]
  have item := dropped.item
  have items := dropped.items
  obtain ⟨h', hash', absent⟩ := dropped.absent
  rw [rosterItems_alloc_self] at item
  rw [tables.items_alloc, text] at items
  have key : d.rosterText w.nextPtr = ri.jid := by rw [World.rosterText, item]
  rw [text, ← key] at absent
  by_cases removal : isRemoval cur = true
  · rw [if_pos removal, if_pos removal]
    refine ⟨dropped.tables.delete dropped.unlinked.free, ?_⟩
    rw [rosterItemOf_delete]
    funext v jid
    rw [items]
    by_cases own : v = u
    · subst own
      by_cases hit : jid = ri.jid
      · simp [hit]
      · simp [hit]
    · simp [own]
  · rw [if_neg removal, if_neg removal, hash']
    refine ⟨dropped.tables.put hash' dropped.unlinked absent, ?_⟩
    change (d.replaceRoster u (xhashPut d.rosterText h' w.nextPtr w.nextPtr) 1).rosterItemOf = _
    funext v jid
    rw [items_put dropped.tables hash' absent, items, key, item]
    by_cases own : v = u
    · subst own
      by_cases hit : jid = ri.jid
      · simp [hit]
      · simp [hit]
    · simp [own]

/-- All items of a stanza, one after the other. -/
theorem rosterStoreItems_spec (items : List XmlNode) (tables : w.Tables)
    (hashed : (w.users u).rosterHash.isSome) :
    (items.foldl (rosterStoreItem u) w).Tables ∧
      (items.foldl (rosterStoreItem u) w).rosterItemOf =
        Function.update w.rosterItemOf u
          (items.foldl (rosterApply (w.users u).privRost.privRostList) (w.rosterItemOf u)) := by
  induction items generalizing w with
  | nil => exact ⟨tables, (Function.update_eq_self u _).symm⟩
  | cons cur items ih =>
    obtain ⟨stored, contents⟩ := rosterStoreItem_spec tables hashed cur
    have frame := rosterStoreItem_frame w u cur
    obtain ⟨hash, count, last, user⟩ := frame.user
    have list : ((rosterStoreItem u w cur).users u).privRost = (w.users u).privRost := by rw [user]
    obtain ⟨all, rest⟩ := ih stored (rosterStoreItem_isSome u hashed cur)
    refine ⟨all, ?_⟩
    rw [List.foldl_cons, rest, contents, list, Function.update_self, Function.update_idem,
      List.foldl_cons]

end Store

section Whole

variable {w : World} {u : UserPtr}

/-- What `roster_hash_delete` does besides deleting the items. -/
def World.dropRoster (w : World) (u : UserPtr) : World :=
  let count := (w.users u).rosterCount
  (w.updUser u fun user =>
    { user with rosterHash := none, lastRosterCount := count, rosterCount := 0 }).updGlobals
      fun g => { g with globRosterCount := g.globRosterCount - count }

theorem dropRoster_user : ((w.dropRoster u).users u).rosterHash = none ∧
    ((w.dropRoster u).users u).rosterCount = 0 := by
  simp [World.dropRoster, World.updUser, World.updGlobals]

theorem dropRoster_other {v : UserPtr} (other : v ≠ u) : (w.dropRoster u).users v = w.users v := by
  simp [World.dropRoster, World.updUser, World.updGlobals, other]

/-- Deleting the items of a roster leaves the other items alone. -/
theorem deleteItems_items (entries : List (RosterPtr × RosterPtr)) (w : World) (p : RosterPtr) :
    ((entries.foldl (fun w kv => rosterItemDelete w kv.2) w).rosterItems p).item =
        (w.rosterItems p).item ∧
      ((∀ e ∈ entries, e.2 ≠ p) →
        (entries.foldl (fun w kv => rosterItemDelete w kv.2) w).rosterItems p = w.rosterItems p) := by
  induction entries generalizing w with
  | nil => exact ⟨rfl, fun _ => rfl⟩
  | cons e entries ih =>
    obtain ⟨item, others⟩ := ih (rosterItemDelete w e.2)
    refine ⟨item.trans (item_delete p), fun free => ?_⟩
    have other : p ≠ e.2 := (free e List.mem_cons_self).symm
    refine (others fun e' mem => free e' (List.mem_cons_of_mem _ mem)).trans ?_
    simp [rosterItemDelete, other]

section Dropped

variable {cells : RosterPtr → RosterCell}

theorem dropRoster_entries (v : UserPtr) :
    ({ w with rosterItems := cells }.dropRoster u).rosterEntries v =
      if v = u then [] else w.rosterEntries v := by
  by_cases own : v = u
  · subst own
    rw [World.rosterEntries, dropRoster_user.1, if_pos rfl]
    rfl
  · rw [World.rosterEntries, dropRoster_other own, if_neg own]
    rfl

variable (items : ∀ p, (cells p).item = (w.rosterItems p).item)
include items

theorem dropRoster_text : ({ w with rosterItems := cells }.dropRoster u).rosterText = w.rosterText :=
  funext fun p => congrArg RosterItem.jid (items p)

theorem dropRoster_items : ({ w with rosterItems := cells }.dropRoster u).rosterItemOf =
    Function.update w.rosterItemOf u fun _ => none := by
  funext v jid
  by_cases own : v = u
  · subst own
    rw [World.rosterItemOf, dropRoster_user.1, Function.update_self]
    rfl
  · rw [World.rosterItemOf, dropRoster_other own, Function.update_of_ne own, dropRoster_text items]
    exact congrArg (fun f => Option.map f _) (funext fun p => by rw [← items p]; rfl)

/-- The rosters of the others stay in order when their own items are left alone. -/
theorem World.Tables.dropRoster (tables : w.Tables)
    (kept : ∀ v ≠ u, ∀ e ∈ w.rosterEntries v, cells e.2 = w.rosterItems e.2) :
    ({ w with rosterItems := cells }.dropRoster u).Tables := by
  have others : ∀ v, ∀ e ∈ ({ w with rosterItems := cells }.dropRoster u).rosterEntries v,
      v ≠ u ∧ e ∈ w.rosterEntries v := by
    intro v e mem
    rw [dropRoster_entries] at mem
    by_cases own : v = u
    · rw [if_pos own] at mem
      cases mem
    · rw [if_neg own] at mem
      exact ⟨own, mem⟩
  refine ⟨fun v h hash => ?_, fun v e mem => tables.keyed v e (others v e mem).2, fun v e mem => ?_,
    fun v v' e mem e' mem' => tables.apart v v' e (others v e mem).2 e' (others v' e' mem').2,
    fun v => ?_⟩
  · by_cases own : v = u
    · subst own
      rw [dropRoster_user.1] at hash
      cases hash
    · rw [dropRoster_other own] at hash
      rw [dropRoster_text items]
      exact tables.sound v h hash
  · obtain ⟨own, mem⟩ := others v e mem
    change (cells e.2).live = true ∧ _
    rw [kept v own e mem]
    exact tables.alive v e mem
  · rw [dropRoster_entries]
    by_cases own : v = u
    · subst own
      rw [if_pos rfl, dropRoster_user.2]
      rfl
    · rw [if_neg own, dropRoster_other own]
      exact tables.counted v

end Dropped

theorem rosterHashDelete_items (tables : w.Tables) :
    (rosterHashDelete u w).Tables ∧
      (rosterHashDelete u w).rosterItemOf = Function.update w.rosterItemOf u fun _ => none := by
  cases hash : (w.users u).rosterHash with
  | none =>
    rw [rosterHashDelete, hash]
    refine ⟨tables, ?_⟩
    rw [eq_comm, Function.update_eq_self_iff]
    funext jid
    rw [World.rosterItemOf, hash]
    rfl
  | some h =>
    obtain ⟨cells, deleted⟩ := deleteItems_eq w (xhashWalk h)
    have items := deleteItems_items (xhashWalk h) w
    rw [deleted] at items
    have walk : w.rosterEntries u = xhashWalk h := rosterEntries_of_hash hash
    have dropped : rosterHashDelete u w = { w with rosterItems := cells }.dropRoster u := by
      simp only [rosterHashDelete, hash, deleted]
      rfl
    have kept : ∀ v ≠ u, ∀ e ∈ w.rosterEntries v, cells e.2 = w.rosterItems e.2 :=
      fun v other e mem => (items e.2).2 fun e' mem' same =>
        other (tables.apart v u e mem e' (walk ▸ mem') same.symm)
    rw [dropped]
    exact ⟨tables.dropRoster (fun p => (items p).1) kept, dropRoster_items fun p => (items p).1⟩

theorem replaceRoster_zero {h : RosterHash} :
    w.replaceRoster u h 0 = w.setRosterHash u (some h) := by
  simp [World.replaceRoster, World.addRosterCount, World.setRosterHash, World.updUser,
    World.updGlobals]

/-- A user gets an empty roster. -/
theorem World.Tables.new (tables : w.Tables) (none : (w.users u).rosterHash = none)
    (size : Nat) :
    (w.setRosterHash u (some (xhashNew (fitPrime size)))).Tables ∧
      (w.setRosterHash u (some (xhashNew (fitPrime size)))).rosterItemOf = w.rosterItemOf := by
  have counted := tables.counted u
  rw [World.rosterEntries, none] at counted
  have empty : xhashWalk (xhashNew (fitPrime size) : RosterHash) = [] := xhashWalk_new _
  have sound : (xhashNew (fitPrime size) : RosterHash).Sound w.rosterText :=
    sound_xhashNew (fitPrime_pos size)
  rw [← replaceRoster_zero]
  refine ⟨tables.replace sound ?_ ?_, ?_⟩
  · rw [empty]
    exact nofun
  · rw [empty, counted]
    rfl
  · funext v jid
    rw [replaceRoster_items]
    split
    · subst v
      have missed : xhashGet w.rosterText (xhashNew (fitPrime size) : RosterHash) jid = .none :=
        sound.get_eq_none.mpr (by rw [empty]; exact nofun)
      rw [missed, World.rosterItemOf, none]
      rfl
    · rfl

theorem rosterHashOpen_spec (xml : Option XmlNode) (tables : w.Tables) (delete : Bool) :
    (rosterHashOpen u xml delete w).Tables ∧ (rosterHashOpen u xml delete w).rosterItemOf =
      if delete then Function.update w.rosterItemOf u fun _ => none else w.rosterItemOf := by
  have deleted : (if delete then rosterHashDelete u w else w).Tables ∧
      (if delete then rosterHashDelete u w else w).rosterItemOf =
        if delete then Function.update w.rosterItemOf u fun _ => none else w.rosterItemOf := by
    cases delete with
    | true => exact rosterHashDelete_items tables
    | false => exact ⟨tables, rfl⟩
  unfold rosterHashOpen
  dsimp only
  split
  · rename_i none
    obtain ⟨new, contents⟩ := deleted.1.new none (xmlnodeCountTags xml)
    exact ⟨new, contents.trans deleted.2⟩
  · exact deleted

theorem tables_userDebug (tables : w.Tables) (r : Report) : (w.userDebug u r).Tables ∧
    (w.userDebug u r).rosterItemOf = w.rosterItemOf := by
  unfold World.userDebug
  split
  · exact ⟨tables, rfl⟩
  · exact ⟨⟨tables.sound, tables.keyed, tables.alive, tables.apart, tables.counted⟩, rfl⟩

/-- A whole stanza. -/
theorem rosterHashFromXml_items (xml : Option XmlNode) (tables : w.Tables) (delete : Bool) :
    (rosterHashFromXml u xml delete w).Tables ∧ (rosterHashFromXml u xml delete w).rosterItemOf =
      Function.update w.rosterItemOf u ((tagIter xml (cstr "item")).foldl
        (rosterApply (w.users u).privRost.privRostList)
        (if delete then fun _ => none else w.rosterItemOf u)) := by
  obtain ⟨opened, contents⟩ := rosterHashOpen_spec xml tables delete
  have frame := rosterHashOpen_frame w u xml delete
  obtain ⟨hash, count, last, user⟩ := frame.user
  have list : ((rosterHashOpen u xml delete w).users u).privRost = (w.users u).privRost := by
    rw [user]
  have stored := rosterStoreItems_spec (tagIter xml (cstr "item")) opened
    (rosterHashOpen_isSome w u xml delete)
  rw [contents, list] at stored
  have final : (rosterHashFromXml u xml delete w).Tables ∧
      (rosterHashFromXml u xml delete w).rosterItemOf =
        (rosterHashStore u xml delete w).rosterItemOf := by
    rcases rosterHashFromXml_eq w u xml delete with equal | report
    · rw [equal]
      exact ⟨stored.1, rfl⟩
    · rw [report]
      exact tables_userDebug stored.1 _
  refine ⟨final.1, final.2.trans (stored.2.trans ?_)⟩
  cases delete with
  | true => simp
  | false => simp

theorem rosterHashDelete_spec (tables : w.Tables) :
    (rosterHashDelete u w).Tables ∧
      (rosterHashDelete u w).rosterContents = Function.update w.rosterContents u fun _ => none := by
  obtain ⟨deleted, items⟩ := rosterHashDelete_items tables (u := u)
  refine ⟨deleted, ?_⟩
  funext v
  rw [rosterContents_eq, items]
  by_cases own : v = u
  · subst own
    rw [Function.update_self, Function.update_self]
    rfl
  · rw [Function.update_of_ne own, Function.update_of_ne own, rosterContents_eq]

/-- The items of a stanza know nothing of presences. -/
theorem rosterApply_unseen (privList : List PrivRosterItem) (items : CString → Option RosterItem)
    (cur : XmlNode) : (fun jid => (rosterApply privList items cur jid).map RosterItem.unseen) =
      rosterApply privList (fun jid => (items jid).map RosterItem.unseen) cur := by
  funext jid
  unfold rosterApply
  by_cases hit : jid = (rosterItemFromXml privList cur).jid
  · subst hit
    rw [Function.update_self, Function.update_self]
    split
    · rfl
    · rfl
  · rw [Function.update_of_ne hit, Function.update_of_ne hit]

theorem rosterApply_items_unseen (privList : List PrivRosterItem) (stanza : List XmlNode)
    (items : CString → Option RosterItem) :
    (fun jid => (stanza.foldl (rosterApply privList) items jid).map RosterItem.unseen) =
      stanza.foldl (rosterApply privList) fun jid => (items jid).map RosterItem.unseen := by
  induction stanza generalizing items with
  | nil => rfl
  | cons cur stanza ih => rw [List.foldl_cons, List.foldl_cons, ih, rosterApply_unseen]

/-- The same, without what presences say. -/
theorem rosterHashFromXml_tables (xml : Option XmlNode) (tables : w.Tables) (delete : Bool) :
    (rosterHashFromXml u xml delete w).Tables ∧ (rosterHashFromXml u xml delete w).rosterContents =
      Function.update w.rosterContents u ((tagIter xml (cstr "item")).foldl
        (rosterApply (w.users u).privRost.privRostList)
        (if delete then fun _ => none else w.rosterContents u)) := by
  obtain ⟨stored, items⟩ := rosterHashFromXml_items xml tables delete (u := u)
  refine ⟨stored, ?_⟩
  funext v
  rw [rosterContents_eq, items]
  by_cases own : v = u
  · subst own
    rw [Function.update_self, Function.update_self, rosterApply_items_unseen, rosterContents_eq]
    cases delete with
    | true => rfl
    | false => rfl
  · rw [Function.update_of_ne own, Function.update_of_ne own, rosterContents_eq]

end Whole

/-- The counter of `u` and that of the program grew by the same number. -/
structure Tallied (u : UserPtr) (w w' : World) : Prop where
  usersCount : w'.usersCount = w.usersCount
  others : ∀ v, v ≠ u → (w'.users v).rosterCount = (w.users v).rosterCount
  grown : ∃ d, w'.globals = { w.globals with globRosterCount := w.globals.globRosterCount + d } ∧
    (w'.users u).rosterCount = (w.users u).rosterCount + d

namespace Tallied

variable {w w' w'' : World} {u : UserPtr}

theorem of_same (usersCount : w'.usersCount = w.usersCount) (globals : w'.globals = w.globals)
    (counts : ∀ v, (w'.users v).rosterCount = (w.users v).rosterCount) : Tallied u w w' := by
  refine ⟨usersCount, fun v _ => counts v, 0, ?_, ?_⟩
  · rw [globals, Int.add_zero]
  · rw [counts, Int.add_zero]

theorem refl (u : UserPtr) (w : World) : Tallied u w w := .of_same rfl rfl fun _ => rfl

theorem trans (first : Tallied u w w') (second : Tallied u w' w'') : Tallied u w w'' := by
  obtain ⟨d, globals, count⟩ := first.grown
  obtain ⟨d', globals', count'⟩ := second.grown
  refine ⟨second.usersCount.trans first.usersCount,
    fun v other => (second.others v other).trans (first.others v other), d + d', ?_, ?_⟩
  · rw [globals', globals, Int.add_assoc]
  · rw [count', count, Int.add_assoc]

theorem setHash (h : Option RosterHash) : Tallied u w (w.setRosterHash u h) := by
  refine .of_same rfl rfl fun v => ?_
  by_cases own : v = u
  · subst own
    simp [World.setRosterHash, World.updUser]
  · simp [World.setRosterHash, World.updUser, own]

theorem addCount (d : Int) : Tallied u w (w.addRosterCount u d) := by
  refine ⟨rfl, fun v other => ?_, d, rfl, ?_⟩
  · simp [World.addRosterCount, World.updUser, World.updGlobals, other]
  · simp [World.addRosterCount, World.updUser, World.updGlobals]

theorem dropOld (h : RosterHash) (ri : RosterPtr) : Tallied u w (rosterDropOld u h ri w) := by
  cases found : xhashGet w.rosterText h (w.rosterText ri) with
  | none =>
    rw [rosterDropOld, found]
    exact .refl u w
  | some oldri =>
    rw [rosterDropOld, found]
    have zapped : Tallied u w (w.setRosterHash u (some (xhashZap w.rosterText h (w.rosterText ri)))) :=
      .setHash _
    have deleted : Tallied u w (rosterItemDelete (w.setRosterHash u
        (some (xhashZap w.rosterText h (w.rosterText ri)))) oldri) :=
      zapped.trans (.of_same rfl rfl fun _ => rfl)
    exact deleted.trans (.addCount (-1))

theorem storeItem (cur : XmlNode) : Tallied u w (rosterStoreItem u w cur) := by
  unfold rosterStoreItem
  split
  · exact .refl u w
  · rename_i h hash
    have allocated : ∀ ri, Tallied u w (w.allocRosterItem ri) := fun ri =>
      .of_same rfl rfl fun _ => rfl
    have dropped := (allocated (rosterItemFromXml (w.users u).privRost.privRostList cur)).trans
      (.dropOld h w.nextPtr)
    dsimp only
    split
    · exact dropped.trans (.of_same rfl rfl fun _ => rfl)
    · split
      · exact dropped
      · exact (dropped.trans (.setHash _)).trans (.addCount 1)

theorem storeItems (items : List XmlNode) : Tallied u w (items.foldl (rosterStoreItem u) w) := by
  induction items generalizing w with
  | nil => exact .refl u w
  | cons cur items ih => exact (storeItem cur).trans ih

theorem hashDelete : Tallied u w (rosterHashDelete u w) := by
  unfold rosterHashDelete
  split
  · exact .refl u w
  · rename_i h hash
    obtain ⟨cells, deleted⟩ := deleteItems_eq w (xhashWalk h)
    rw [deleted]
    refine ⟨rfl, fun v other => ?_, -(w.users u).rosterCount, ?_, ?_⟩
    · simp [World.updUser, World.updGlobals, other]
    · simp [World.updUser, World.updGlobals, Int.sub_eq_add_neg]
    · simp [World.updUser, World.updGlobals]

theorem hashFromXml (xml : Option XmlNode) (delete : Bool) :
    Tallied u w (rosterHashFromXml u xml delete w) := by
  have opened : Tallied u w (rosterHashOpen u xml delete w) := by
    have deleted : Tallied u w (if delete then rosterHashDelete u w else w) := by
      split
      · exact hashDelete
      · exact .refl u w
    unfold rosterHashOpen
    dsimp only
    split
    · exact deleted.trans (.setHash _)
    · exact deleted
  have stored : Tallied u w (rosterHashStore u xml delete w) := opened.trans (storeItems _)
  rcases rosterHashFromXml_eq w u xml delete with same | report
  · rw [same]
    exact stored
  · rw [report]
    refine stored.trans ?_
    unfold World.userDebug
    split
    · exact .refl u _
    · exact .of_same rfl rfl fun _ => rfl

/-- The sum over the users keeps step with the counter of the program. -/
theorem total (tallied : Tallied u w w') (inside : u < w.usersCount)
    (total : w.globals.globRosterCount = ∑ v ∈ Finset.range w.usersCount, (w.users v).rosterCount) :
    w'.globals.globRosterCount = ∑ v ∈ Finset.range w'.usersCount, (w'.users v).rosterCount := by
  obtain ⟨d, globals, count⟩ := tallied.grown
  have changed : ∀ v, (w'.users v).rosterCount =
      (w.users v).rosterCount + if v = u then d else 0 := by
    intro v
    split
    · subst v
      exact count
    · rw [tallied.others v ‹_›, Int.add_zero]
  rw [globals, tallied.usersCount, Finset.sum_congr rfl fun v _ => changed v,
    Finset.sum_add_distrib, Finset.sum_ite_eq' (Finset.range w.usersCount) u fun _ => d,
    if_pos (Finset.mem_range.mpr inside), ← total]

end Tallied

theorem rosterHashFromXml_spec {w : World} {u : UserPtr} (xml : Option XmlNode) (rosters : w.Rosters)
    (inside : u < w.usersCount) (delete : Bool) :
    (rosterHashFromXml u xml delete w).Rosters ∧ (rosterHashFromXml u xml delete w).rosterContents =
      Function.update w.rosterContents u ((tagIter xml (cstr "item")).foldl
        (rosterApply (w.users u).privRost.privRostList)
        (if delete then fun _ => none else w.rosterContents u)) := by
  obtain ⟨tables, contents⟩ := rosterHashFromXml_tables xml rosters.toTables delete
  exact ⟨⟨tables, (Tallied.hashFromXml xml delete).total inside rosters.total⟩, contents⟩

/-- Nothing happened to the tables, apart from what presences said. -/
structure SameTables (w w' : World) : Prop where
  hash : ∀ u, (w'.users u).rosterHash = (w.users u).rosterHash
  count : ∀ u, (w'.users u).rosterCount = (w.users u).rosterCount
  next : w.nextPtr ≤ w'.nextPtr
  live : ∀ p < w.nextPtr, (w'.rosterItems p).live = (w.rosterItems p).live
  item : ∀ p < w.nextPtr, { (w'.rosterItems p).item with available := false } =
    { (w.rosterItems p).item with available := false }

/-- Nothing happened to the rosters either. -/
structure SameRosters (w w' : World) : Prop extends SameTables w w' where
  usersCount : w'.usersCount = w.usersCount
  total : w'.globals.globRosterCount = w.globals.globRosterCount

theorem SameTables.spec {w w' : World} (same : SameTables w w') (rosters : w.Tables) :
    w'.Tables ∧ w'.rosterContents = w.rosterContents := by
  have entries : ∀ u, w'.rosterEntries u = w.rosterEntries u := fun u => by
    rw [World.rosterEntries, same.hash]
    rfl
  have text : ∀ u, ∀ e ∈ w.rosterEntries u, w'.rosterText e.1 = w.rosterText e.1 :=
    fun u e mem => by
      have item := same.item e.1 (by rw [rosters.keyed u e mem]; exact (rosters.alive u e mem).2)
      exact (RosterItem.mk.inj item).1
  have walk : ∀ u h, (w.users u).rosterHash = some h → ∀ e ∈ xhashWalk h, e ∈ w.rosterEntries u :=
    fun u h hash e mem => by rwa [rosterEntries_of_hash hash]
  refine ⟨⟨fun u h hash => ?_, fun u e mem => ?_, fun u e mem => ?_, fun u v e mem e' mem' => ?_,
    fun u => ?_⟩, ?_⟩
  · rw [same.hash] at hash
    exact (rosters.sound u h hash).congr fun e mem => text u e (walk u h hash e mem)
  · rw [entries] at mem
    exact rosters.keyed u e mem
  · rw [entries] at mem
    obtain ⟨live, old⟩ := rosters.alive u e mem
    rw [same.live e.2 old]
    exact ⟨live, Nat.lt_of_lt_of_le old same.next⟩
  · rw [entries] at mem mem'
    exact rosters.apart u v e mem e' mem'
  · rw [same.count, entries]
    exact rosters.counted u
  · funext u jid
    rw [World.rosterContents, World.rosterContents, same.hash]
    cases hash : (w.users u).rosterHash with
    | none => rfl
    | some h =>
      have sound := rosters.sound u h hash
      simp only [Option.bind_some]
      rw [sound.get_congr fun e mem => text u e (walk u h hash e mem)]
      refine Option.map_congr fun p got => ?_
      obtain ⟨k, mem, _⟩ := sound.get_iff.mp got
      exact same.item p (rosters.alive u _ (walk u h hash _ mem)).2

theorem SameRosters.spec {w w' : World} (same : SameRosters w w') (rosters : w.Rosters) :
    w'.Rosters ∧ w'.rosterContents = w.rosterContents := by
  obtain ⟨tables, contents⟩ := same.toSameTables.spec rosters.toTables
  refine ⟨⟨tables, ?_⟩, contents⟩
  rw [same.total, same.usersCount, rosters.total]
  exact Finset.sum_congr rfl fun u _ => (same.count u).symm

/-- The contents of every roster, as the items of the stanzas are stored one after
the other. -/
inductive RosterRun : World → (UserPtr → CString → Option RosterItem) → Prop
  | init {w} (fresh : w.Initial) : RosterRun w fun _ _ => none
  | result {w contents} (before : RosterRun w contents) (u : UserPtr) (inside : u < w.usersCount)
      (xml : Option XmlNode) : RosterRun (rosterHashFromXml u xml true w)
        (Function.update contents u ((tagIter xml (cstr "item")).foldl
          (rosterApply (w.users u).privRost.privRostList) fun _ => none))
  | push {w contents} (before : RosterRun w contents) (u : UserPtr) (inside : u < w.usersCount)
      (xml : Option XmlNode) : RosterRun (rosterHashFromXml u xml false w)
        (Function.update contents u ((tagIter xml (cstr "item")).foldl
          (rosterApply (w.users u).privRost.privRostList) (contents u)))
  | delete {w contents} (before : RosterRun w contents) (u : UserPtr) (inside : u < w.usersCount) :
      RosterRun (rosterHashDelete u w) (Function.update contents u fun _ => none)
  | other {w w' contents} (before : RosterRun w contents) (same : SameRosters w w') :
      RosterRun w' contents

theorem World.Initial.rosters {w : World} (fresh : w.Initial) :
    w.Rosters ∧ w.rosterContents = fun _ _ => none := by
  have hash : ∀ u, (w.users u).rosterHash = none := fun u => (fresh.users u).rosterHash
  have none : ∀ u, w.rosterEntries u = [] := fun u => by rw [World.rosterEntries, hash]; rfl
  refine ⟨⟨⟨fun u h some => ?_, fun u e mem => ?_, fun u e mem => ?_, fun u v e mem => ?_,
    fun u => ?_⟩, ?_⟩, ?_⟩
  · rw [hash] at some
    cases some
  · rw [none] at mem
    cases mem
  · rw [none] at mem
    cases mem
  · rw [none] at mem
    cases mem
  · rw [none, (fresh.users u).rosterCount]
    rfl
  · rw [fresh.globRosterCount]
    exact (Finset.sum_eq_zero fun u _ => (fresh.users u).rosterCount).symm
  · funext u jid
    rw [World.rosterContents, hash]
    rfl

theorem RosterRun.spec {w : World} {contents : UserPtr → CString → Option RosterItem}
    (run : RosterRun w contents) : w.Rosters ∧ w.rosterContents = contents := by
  induction run with
  | init fresh => exact fresh.rosters
  | result _ u inside xml ih =>
    obtain ⟨rosters, rfl⟩ := ih
    exact rosterHashFromXml_spec xml rosters inside true
  | push _ u inside xml ih =>
    obtain ⟨rosters, rfl⟩ := ih
    exact rosterHashFromXml_spec xml rosters inside false
  | delete _ u inside ih =>
    obtain ⟨rosters, rfl⟩ := ih
    obtain ⟨tables, contents⟩ := rosterHashDelete_spec rosters.toTables (u := u)
    exact ⟨⟨tables, Tallied.hashDelete.total inside rosters.total⟩, contents⟩
  | other _ same ih =>
    obtain ⟨rosters, rfl⟩ := ih
    exact same.spec rosters

/-- In every state the counter of a user is the number of live entries of its
roster, which have different jids, the counter of the program is the sum, and the
contents are those of the items stored one after the other. -/
theorem rosters_accounted {w : World} {contents : UserPtr → CString → Option RosterItem}
    (run : RosterRun w contents) :
    (∀ u, (w.users u).rosterCount = (w.rosterEntries u).length ∧
      (w.rosterEntries u).length = ((w.rosterEntries u).map fun e => w.rosterText e.1).toFinset.card ∧
      ∀ e ∈ w.rosterEntries u, (w.rosterItems e.2).live = true) ∧
    w.globals.globRosterCount = ∑ u ∈ Finset.range w.usersCount, (w.users u).rosterCount ∧
    ∀ u jid, w.rosterContents u jid = contents u jid := by
  obtain ⟨rosters, rfl⟩ := run.spec
  refine ⟨fun u => ⟨rosters.counted u, ?_, fun e mem => (rosters.alive u e mem).1⟩, rosters.total,
    fun _ _ => rfl⟩
  have nodup : ((w.rosterEntries u).map fun e => w.rosterText e.1).Nodup := by
    cases hash : (w.users u).rosterHash with
    | none =>
      rw [World.rosterEntries, hash]
      exact List.nodup_nil
    | some h =>
      rw [rosterEntries_of_hash hash]
      exact (rosters.sound u h hash).texts_nodup
  rw [List.toFinset_card_of_nodup nodup, List.length_map]

/-- The roster of one user names Ola twice. -/
def olaTwice : XmlNode :=
  let item (nick : String) : XmlNode :=
    .tag (cstr "item") [(cstr "jid", cstr "ola@host"), (cstr "nick", cstr nick)] []
  .tag (cstr "query") [] [item "ola", item "olenka"]

theorem rosters_accounted_twice :
    ((rosterHashFromXml 0 (some olaTwice) true (plainWorld [])).users 0).rosterCount = 1 ∧
      ((rosterHashFromXml 0 (some olaTwice) true (plainWorld [])).rosterContents 0
        (cstr "ola@host")).map RosterItem.nick = some (cstr "olenka") := by
  have run := RosterRun.result (.init (plainWorld_initial [])) 0 Nat.one_pos (some olaTwice)
  obtain ⟨counts, _, contents⟩ := rosters_accounted run
  constructor
  · rw [(counts 0).1]
    decide +kernel
  · rw [contents, Function.update_self]
    decide +kernel

end JabSimul
