import JabSimul.ThreadRefinement
import Mathlib.Data.List.Nodup

/-!
Saving and loading the private roster. A private roster is compared as data,
without the addresses of its contacts and groups: a contact knows its groups by
their places in the list.
-/
namespace JabSimul

open Simulation

structure PrivContact where
  jid : Option CString
  nickName : Option CString
  displayName : Option CString
  firstName : Option CString
  lastName : Option CString
  sms : Option CString
  cyfra : Option CString
  speak : Option CString
  presenceText : Option CString
  flash : Bool
  speakPres : Bool
  groups : List (Option Nat)

structure PrivData where
  contacts : List PrivContact
  groups : List (Option CString × Bool)
  gall : Option (Option CString × Bool)

/-- The place of a group in the list. -/
def groupPos (groups : List GroupItem) (g : GroupPtr) : Option Nat :=
  groups.findIdx? fun item => item.ptr = g

def PrivRosterItem.contact (groups : List GroupItem) (item : PrivRosterItem) : PrivContact :=
  ⟨item.jid, item.nickName, item.displayName, item.firstName, item.lastName, item.sms, item.cyfra,
    item.speak, item.presenceText, item.flash, item.speakPres, item.groups.map (groupPos groups)⟩

def GroupItem.data (g : GroupItem) : Option CString × Bool := (g.name, g.exp)

def PrivRost.data (p : PrivRost) : PrivData :=
  ⟨p.privRostList.map (PrivRosterItem.contact p.groups), p.groups.map GroupItem.data,
    p.gall.map GroupItem.data⟩

/-- A private roster that is not loaded has no contacts and no groups. -/
def PrivRost.Ready (p : PrivRost) : Prop :=
  p.loaded = false → p.privRostList = [] ∧ p.groups = []

section Load

/-- The contact that an item of a stanza describes, when the groups have these names. -/
def contactOf (names : List (Option CString)) (cur : XmlNode) : PrivContact :=
  let data := fun name => xmlnodeGetTagData (some cur) (cstr name)
  { jid := data "jid"
    nickName := data "nick"
    displayName := (data "displayname").or (data "nick")
    firstName := data "firstname"
    lastName := data "lastname"
    sms := data "sms"
    cyfra := data "cyfra"
    speak := (data "speak").or (some (cstr "Standard"))
    presenceText := data "prestext"
    flash := privFlag (some cur) "flash"
    speakPres := privFlag (some cur) "speak_pres"
    groups := ((tagIter (xmlnodeGetTag (some cur) (cstr "groups")) (cstr "groupitem")).filterMap
      fun g => names.findIdx? fun name => jStrcmp name (xmlnodeGetData (some g)) = 0).map some }

def groupOf (cur : XmlNode) : Option CString × Bool :=
  (xmlnodeGetTagData (some cur) (cstr "name"), privFlag (some cur) "exp")

def gallOf (gxml : Option XmlNode) : Option CString × Bool :=
  match xmlnodeGetTag gxml (cstr "groupall") with
  | some groupAll =>
      (some ((xmlnodeGetTagData (some groupAll) (cstr "name")).getD (cstr "Wszyscy")),
        privFlag (some groupAll) "exp")
  | none => (some (cstr "Wszyscy"), true)

/-- The private roster that a stanza describes. -/
def privDataOf (xml : Option XmlNode) : PrivData :=
  let wpmsg := xmlnodeGetTag (xmlnodeGetTag xml (cstr "query")) (cstr "wpmsg")
  let gxml := xmlnodeGetTag wpmsg (cstr "groups")
  let groups := (tagIter gxml (cstr "group")).map groupOf
  let items := tagIter (xmlnodeGetTag wpmsg (cstr "contacts")) (cstr "item")
  ⟨items.map (contactOf (groups.map Prod.fst)), groups, some (gallOf gxml)⟩

/-- Objects that are created one after the other have one address after the other. -/
theorem mapM_alloc {α β : Type} {f : α → M β} {g : α → Nat → β}
    (creates : ∀ x w, f x w = .ok (g x w.nextPtr) { w with nextPtr := w.nextPtr + 1 })
    (xs : List α) (w : World) :
    xs.mapM f w = .ok ((xs.zipIdx w.nextPtr).map fun xi => g xi.1 xi.2)
      { w with nextPtr := w.nextPtr + xs.length } := by
  induction xs generalizing w with
  | nil => rfl
  | cons x xs ih =>
    simp only [List.mapM_cons, bind_apply, creates, ih, pure_apply, List.zipIdx_cons, List.map_cons,
      List.length_cons]
    rw [Nat.add_assoc, Nat.add_comm 1]

def groupAt (cur : XmlNode) (p : Nat) : GroupItem :=
  ⟨p, (groupOf cur).1, (groupOf cur).2⟩

theorem privLoadGroup_apply (cur : XmlNode) (w : World) :
    privLoadGroup cur w = .ok (groupAt cur w.nextPtr) { w with nextPtr := w.nextPtr + 1 } := rfl

def contactAt (groups : List GroupItem) (cur : XmlNode) (p : Nat) : PrivRosterItem :=
  let c := contactOf [] cur
  { ptr := p
    jid := c.jid
    nickName := c.nickName
    displayName := c.displayName
    firstName := c.firstName
    sms := c.sms
    cyfra := c.cyfra
    lastName := c.lastName
    speak := c.speak
    flash := c.flash
    speakPres := c.speakPres
    presenceText := c.presenceText
    groups := ((tagIter (xmlnodeGetTag (some cur) (cstr "groups")) (cstr "groupitem")).filterMap
      fun g => groups.find? fun item => jStrcmp item.name (xmlnodeGetData (some g)) = 0).map
        GroupItem.ptr }

theorem privLoadContact_apply (groups : List GroupItem) (cur : XmlNode) (w : World) :
    privLoadContact groups cur w =
      .ok (contactAt groups cur w.nextPtr) { w with nextPtr := w.nextPtr + 1 } := by
  simp only [privLoadContact, privRosterItemCreate, bind_apply, get_apply, set_apply, pure_apply,
    contactAt, contactOf, List.filterMap_map]
  rfl

theorem updPrivRost_self (w : World) (u : UserPtr) (f : PrivRost → PrivRost) :
    ((w.updPrivRost u f).users u).privRost = f (w.users u).privRost := by
  unfold World.updPrivRost
  rw [updUser_users_self]

theorem updPrivRost_nextPtr (w : World) (u : UserPtr) (f : PrivRost → PrivRost) :
    (w.updPrivRost u f).nextPtr = w.nextPtr := rfl

theorem privLoadGroups_apply (u : UserPtr) (gxml : Option XmlNode) {w : World}
    (noGroups : (w.users u).privRost.groups = []) :
    ∃ w', privLoadGroups u gxml w = .ok ⟨⟩ w' ∧ (w'.users u).privRost =
      { (w.users u).privRost with
        groups := ((tagIter gxml (cstr "group")).zipIdx w.nextPtr).map fun xi => groupAt xi.1 xi.2
        gall := some ⟨w.nextPtr + (tagIter gxml (cstr "group")).length, (gallOf gxml).1,
          (gallOf gxml).2⟩ } := by
  have items := mapM_alloc privLoadGroup_apply (tagIter gxml (cstr "group")) w
  simp only [privLoadGroups, bind_apply, items, gallOf]
  split
  · cases xmlnodeGetTag gxml (cstr "groupall") with
    | none => exact ⟨_, rfl, by simp only [updPrivRost_self, updPrivRost_nextPtr]⟩
    | some groupAll => exact ⟨_, rfl, by simp only [updPrivRost_self, updPrivRost_nextPtr]⟩
  · rename_i empty
    rw [not_not.mp empty, ← noGroups]
    cases xmlnodeGetTag gxml (cstr "groupall") with
    | none => exact ⟨_, rfl, by simp only [updPrivRost_self]⟩
    | some groupAll => exact ⟨_, rfl, by simp only [updPrivRost_self]⟩

theorem privLoadContacts_apply (u : UserPtr) (cxml : Option XmlNode) {w : World}
    (noContacts : (w.users u).privRost.privRostList = []) :
    ∃ w', privLoadContacts u cxml w = .ok ⟨⟩ w' ∧ (w'.users u).privRost =
      { (w.users u).privRost with
        privRostList := ((tagIter cxml (cstr "item")).zipIdx w.nextPtr).map fun xi =>
          contactAt (w.users u).privRost.groups xi.1 xi.2 } := by
  have items := mapM_alloc (privLoadContact_apply (w.users u).privRost.groups)
    (tagIter cxml (cstr "item")) w
  simp only [privLoadContacts, bind_apply, getUser_apply, items]
  split
  · exact ⟨_, rfl, updPrivRost_self _ _ _⟩
  · rename_i empty
    refine ⟨_, rfl, ?_⟩
    rw [not_not.mp empty]
    change (w.users u).privRost = _
    rw [← noContacts]

/-- The private roster that is made from a stanza, with addresses from `n` on. -/
def privAt (xml : Option XmlNode) (num : Int) (n k : Nat) : PrivRost :=
  let wpmsg := xmlnodeGetTag (xmlnodeGetTag xml (cstr "query")) (cstr "wpmsg")
  let gxml := xmlnodeGetTag wpmsg (cstr "groups")
  let gs := tagIter gxml (cstr "group")
  let groups := (gs.zipIdx n).map fun xi => groupAt xi.1 xi.2
  let items := tagIter (xmlnodeGetTag wpmsg (cstr "contacts")) (cstr "item")
  { privRostList := (items.zipIdx k).map fun xi => contactAt groups xi.1 xi.2
    numextcontacts := num
    groups := groups
    gall := some ⟨n + gs.length, (gallOf gxml).1, (gallOf gxml).2⟩
    loaded := true }

theorem privRosterFromXml_apply (u : UserPtr) (xml : Option XmlNode) {w : World}
    (ready : (w.users u).privRost.Ready) :
    ∃ w' n k, privRosterFromXml u xml w = .ok ⟨⟩ w' ∧
      (w'.users u).privRost = privAt xml (w.users u).privRost.numextcontacts n k := by
  have rest : ∀ w₀ : World, (w₀.users u).privRost.groups = [] →
      (w₀.users u).privRost.privRostList = [] → ∃ w' n k, (do
        let wpmsg := xmlnodeGetTag (xmlnodeGetTag xml (cstr "query")) (cstr "wpmsg")
        privLoadGroups u (xmlnodeGetTag wpmsg (cstr "groups"))
        privLoadContacts u (xmlnodeGetTag wpmsg (cstr "contacts"))
        modify fun w : World => w.updPrivRost u fun p => { p with loaded := true } : M Unit) w₀ = .ok ⟨⟩ w' ∧
      (w'.users u).privRost = privAt xml (w₀.users u).privRost.numextcontacts n k := by
    intro w₀ noGroups noContacts
    obtain ⟨w₁, grouped, priv₁⟩ := privLoadGroups_apply u (xmlnodeGetTag (xmlnodeGetTag
      (xmlnodeGetTag xml (cstr "query")) (cstr "wpmsg")) (cstr "groups")) noGroups
    have noContacts₁ : (w₁.users u).privRost.privRostList = [] := by
      rw [priv₁]
      exact noContacts
    obtain ⟨w₂, loaded, priv₂⟩ := privLoadContacts_apply u (xmlnodeGetTag (xmlnodeGetTag
      (xmlnodeGetTag xml (cstr "query")) (cstr "wpmsg")) (cstr "contacts")) noContacts₁
    refine ⟨_, w₀.nextPtr, w₁.nextPtr, by simp only [bind_apply, grouped, loaded]; rfl, ?_⟩
    rw [updPrivRost_self, priv₂, priv₁]
    rfl
  cases loaded : (w.users u).privRost.loaded with
  | true =>
    obtain ⟨w', n, k, ran, priv⟩ := rest (w.updPrivRost u fun p =>
      { p with privRostList := [], groups := [], gall := none, loaded := false })
      (by rw [updPrivRost_self]) (by rw [updPrivRost_self])
    rw [updPrivRost_self] at priv
    refine ⟨w', n, k, ?_, priv⟩
    simp only [privRosterFromXml, bind_apply, getUser_apply, loaded, if_true]
    exact ran
  | false =>
    obtain ⟨noContacts, noGroups⟩ := ready loaded
    obtain ⟨w', n, k, ran, priv⟩ := rest w noGroups noContacts
    refine ⟨w', n, k, ?_, priv⟩
    simp only [privRosterFromXml, bind_apply, getUser_apply, loaded]
    exact ran

/-- A group that is found by what it says is in the place where it is found. -/
theorem groupPos_find {groups : List GroupItem} (distinct : (groups.map GroupItem.ptr).Nodup)
    (p : GroupItem → Bool) :
    (groups.find? p).map (fun g => groupPos groups g.ptr) = (groups.findIdx? p).map some := by
  induction groups with
  | nil => rfl
  | cons g groups ih =>
    obtain ⟨fresh, rest⟩ := List.nodup_cons.mp distinct
    rw [List.find?_cons, List.findIdx?_cons]
    cases hit : p g with
    | true => simp [groupPos, List.findIdx?_cons]
    | false =>
      have later : (groups.find? p).map (fun g' => groupPos (g :: groups) g'.ptr) =
          (groups.find? p).map fun g' => (groupPos groups g'.ptr).map (· + 1) := by
        refine Option.map_congr fun g' found => ?_
        have other : g.ptr ≠ g'.ptr := fun same =>
          fresh (same ▸ List.mem_map_of_mem (List.mem_of_find?_eq_some found))
        simp [groupPos, List.findIdx?_cons, other]
      have shifted := congrArg (Option.map (Option.map (· + 1))) (ih rest)
      rw [Option.map_map, Option.map_map] at shifted
      simp only [Bool.false_eq_true, if_false]
      rw [later, Option.map_map]
      exact shifted

theorem map_zipIdx_fst {α β : Type} (f : α → β) (xs : List α) (n : Nat) :
    (xs.zipIdx n).map (fun xi => f xi.1) = xs.map f := by
  have fst := congrArg (List.map f) (List.zipIdx_map_fst n xs)
  rwa [List.map_map] at fst

theorem contactAt_contact {groups : List GroupItem} (distinct : (groups.map GroupItem.ptr).Nodup)
    (cur : XmlNode) (p : Nat) :
    (contactAt groups cur p).contact groups = contactOf (groups.map GroupItem.name) cur := by
  have members : ∀ gs : List XmlNode, (((gs.filterMap fun g => groups.find? fun item =>
      jStrcmp item.name (xmlnodeGetData (some g)) = 0).map GroupItem.ptr).map (groupPos groups)) =
      (gs.filterMap fun g => (groups.map GroupItem.name).findIdx? fun name =>
        jStrcmp name (xmlnodeGetData (some g)) = 0).map some := fun gs => by
    rw [List.map_map, List.map_filterMap, List.map_filterMap]
    refine List.filterMap_congr fun g _ => ?_
    rw [List.findIdx?_map]
    exact groupPos_find distinct _
  simp only [contactAt, PrivRosterItem.contact, contactOf, members]

/-- What was made from a stanza is what the stanza describes. -/
theorem privAt_data (xml : Option XmlNode) (num : Int) (n k : Nat) :
    (privAt xml num n k).data = privDataOf xml := by
  have distinct : ∀ gs : List XmlNode,
      (((gs.zipIdx n).map fun xi => groupAt xi.1 xi.2).map GroupItem.ptr).Nodup := fun gs => by
    rw [List.map_map]
    change ((gs.zipIdx n).map Prod.snd).Nodup
    rw [List.zipIdx_map_snd]
    exact List.nodup_range'
  have data : ∀ gs : List XmlNode, ((gs.zipIdx n).map fun xi => groupAt xi.1 xi.2).map
      GroupItem.data = gs.map groupOf := fun gs => by
    rw [List.map_map]
    exact map_zipIdx_fst groupOf gs n
  have contacts : ∀ gs items : List XmlNode,
      (((items.zipIdx k).map fun xi => contactAt ((gs.zipIdx n).map fun xi =>
        groupAt xi.1 xi.2) xi.1 xi.2).map (PrivRosterItem.contact ((gs.zipIdx n).map fun xi =>
          groupAt xi.1 xi.2))) = items.map (contactOf ((gs.map groupOf).map Prod.fst)) := by
    intro gs items
    have names := congrArg (List.map Prod.fst) (data gs)
    rw [List.map_map] at names
    rw [List.map_map, ← names]
    refine Eq.trans (List.map_congr_left fun xi _ => ?_) (map_zipIdx_fst _ items k)
    exact contactAt_contact (distinct gs) xi.1 xi.2
  simp only [privAt, privDataOf, PrivRost.data, contacts, data, Option.map_some]
  rfl

end Load

section Save

/-- The text of the first child tag with a name. -/
def childText (children : List XmlNode) (name : CString) : Option (Option CString) :=
  (children.find? fun n => n.isTag && n.name = some name).map fun n => xmlnodeGetData (some n)

theorem tagData_eq (tag : CString) (as : List (CString × CString)) (children : List XmlNode)
    (name : CString) :
    xmlnodeGetTagData (some (.tag tag as children)) name = (childText children name).join := by
  rw [xmlnodeGetTagData, childText]
  change xmlnodeGetData (children.find? _) = _
  cases children.find? fun n => n.isTag && n.name = some name with
  | none => rfl
  | some n => rfl

theorem childText_append (cs cs' : List XmlNode) (name : CString) :
    childText (cs ++ cs') name = (childText cs name).or (childText cs' name) := by
  rw [childText, List.find?_append]
  cases h : cs.find? fun n => n.isTag && n.name = some name with
  | none => simp [childText, h]
  | some n => simp [childText, h]

theorem textTag_data (tag : String) (text : Option CString) :
    xmlnodeGetData (some (textTag tag text)) = text := by
  cases text with
  | none => rfl
  | some t => simp [textTag, xmlnodeGetData, childData, leadingData]

theorem childText_textTag (tag : String) (text : Option CString) (name : CString) :
    childText [textTag tag text] name = if cstr tag = name then some text else none := by
  by_cases same : cstr tag = name
  · rw [if_pos same, childText, List.find?_cons_of_pos (by simp [textTag, XmlNode.isTag,
      XmlNode.name, same]), Option.map_some, textTag_data]
  · rw [if_neg same, childText, List.find?_cons_of_neg (by simp [textTag, XmlNode.isTag,
      XmlNode.name, same])]
    rfl

theorem childText_optTextTag (tag : String) (text : Option CString) (name : CString) :
    childText (optTextTag tag text) name =
      if cstr tag = name then text.map some else none := by
  cases text with
  | none => split <;> rfl
  | some t =>
    rw [optTextTag, childText_textTag]
    rfl

theorem privFlag_flagText (b : Bool) : decide (jStrcmp (flagText b) (some (cstr "0")) ≠ 0) = b := by
  cases b with
  | false => decide
  | true => decide

variable {groups : List GroupItem} {item : PrivRosterItem}

/-- The tag with the groups of a contact. -/
def groupsTag (groups : List GroupItem) (item : PrivRosterItem) : List XmlNode :=
  if item.groups = [] then []
  else [.tag (cstr "groups") [] (item.groups.map fun g => textTag "groupitem" (groupName groups g))]

theorem childText_groupsTag {name : CString} (other : cstr "groups" ≠ name) :
    childText (groupsTag groups item) name = none := by
  unfold groupsTag childText
  split
  · rfl
  · rw [List.find?_cons_of_neg (by simp [XmlNode.isTag, XmlNode.name, other])]
    rfl

/-- A saved field: its tag, its text, and whether the tag is left out without one. -/
abbrev Field := String × Option CString × Bool

def Field.tags (field : Field) : List XmlNode :=
  if field.2.2 then optTextTag field.1 field.2.1 else [textTag field.1 field.2.1]

theorem Field.text_of_ne {field : Field} {name : CString} (other : cstr field.1 ≠ name) :
    childText field.tags name = none := by
  unfold Field.tags
  split
  · rw [childText_optTextTag, if_neg other]
  · rw [childText_textTag, if_neg other]

theorem fields_missing (fields : List Field) (name : CString)
    (missing : ∀ f ∈ fields, cstr f.1 ≠ name) : childText (fields.flatMap Field.tags) name = none := by
  refine Option.map_eq_none_iff.mpr (List.find?_eq_none.mpr fun n mem hit => ?_)
  obtain ⟨f, inside, tag⟩ := List.mem_flatMap.mp mem
  have missed := Field.text_of_ne (missing f inside)
  exact List.find?_eq_none.mp (Option.map_eq_none_iff.mp missed) n tag hit

/-- Fields with different tags are read back one by one. -/
theorem fields_text {fields : List Field} (distinct : (fields.map fun f => cstr f.1).Nodup)
    {f : Field} (mem : f ∈ fields) :
    (childText (fields.flatMap Field.tags) (cstr f.1)).join = f.2.1 := by
  induction fields with
  | nil => cases mem
  | cons g fields ih =>
    obtain ⟨fresh, rest⟩ := List.nodup_cons.mp distinct
    rw [List.flatMap_cons, childText_append]
    rcases List.mem_cons.mp mem with rfl | later
    · have missed := fields_missing fields (cstr f.1) fun g inside same =>
        fresh (List.mem_map.mpr ⟨g, inside, same⟩)
      rw [missed, Option.or_none]
      unfold Field.tags
      split
      · rw [childText_optTextTag, if_pos rfl]
        cases f.2.1 with
        | none => rfl
        | some t => rfl
      · rw [childText_textTag, if_pos rfl]
        rfl
    · have other : cstr g.1 ≠ cstr f.1 := fun same =>
        fresh (List.mem_map.mpr ⟨f, later, same.symm⟩)
      rw [Field.text_of_ne other, Option.none_or, ih rest later]

/-- The fields of a saved contact. -/
def contactFields (item : PrivRosterItem) : List Field :=
  [("jid", item.jid, true), ("nick", item.nickName, false), ("firstname", item.firstName, true),
    ("lastname", item.lastName, true), ("displayname", item.displayName, true),
    ("sms", item.sms, true), ("cyfra", item.cyfra, true), ("speak", item.speak, true),
    ("flash", flagText item.flash, false), ("speakpres", flagText item.speakPres, false),
    ("prestext", item.presenceText, true)]

theorem privItem2xml_eq : privItem2xml groups item =
    .tag (cstr "item") [] ((contactFields item).flatMap Field.tags ++ groupsTag groups item) := by
  simp [privItem2xml, contactFields, Field.tags, groupsTag]

theorem privItem2xml_text {f : Field} (mem : f ∈ contactFields item)
    (other : cstr "groups" ≠ cstr f.1) :
    xmlnodeGetTagData (some (privItem2xml groups item)) (cstr f.1) = f.2.1 := by
  have distinct : ((contactFields item).map fun f => cstr f.1).Nodup := by
    change ([cstr "jid", cstr "nick", cstr "firstname", cstr "lastname", cstr "displayname",
      cstr "sms", cstr "cyfra", cstr "speak", cstr "flash", cstr "speakpres",
      cstr "prestext"] : List CString).Nodup
    decide
  rw [privItem2xml_eq, tagData_eq, childText_append, childText_groupsTag other, Option.or_none,
    fields_text distinct mem]

/-- No field of a saved contact has the tag that the flag is read from. -/
theorem privItem2xml_missing {name : CString} (other : cstr "groups" ≠ name)
    (missing : ∀ f ∈ contactFields item, cstr f.1 ≠ name) :
    xmlnodeGetTagData (some (privItem2xml groups item)) name = none := by
  rw [privItem2xml_eq, tagData_eq, childText_append, childText_groupsTag other, Option.or_none,
    fields_missing _ _ missing]
  rfl

/-- The names of the groups lead back to the groups. -/
theorem namePos (groups : List GroupItem) (named : ∀ g ∈ groups, g.name.isSome)
    (distinct : (groups.map GroupItem.name).Nodup) {g : GroupPtr} {i : Nat}
    (pos : groupPos groups g = some i) :
    (groups.map GroupItem.name).findIdx? (fun name => jStrcmp name (groupName groups g) = 0) =
      some i := by
  induction groups generalizing i with
  | nil => cases pos
  | cons x groups ih =>
    obtain ⟨fresh, rest⟩ := List.nodup_cons.mp distinct
    obtain ⟨t, name⟩ := Option.isSome_iff_exists.mp (named x List.mem_cons_self)
    rw [groupPos, List.findIdx?_cons] at pos
    rw [List.map_cons, List.findIdx?_cons]
    by_cases here : x.ptr = g
    · simp only [here, decide_true, if_true] at pos
      have own : groupName (x :: groups) g = some t := by simp [groupName, here, name]
      have equal : jStrcmp x.name (groupName (x :: groups) g) = 0 := by
        rw [own, name]
        exact (jStrcmp_eq_zero_iff _ _).mpr ⟨t, rfl, rfl⟩
      simp [equal, pos]
    · simp only [here, decide_false, Bool.false_eq_true, if_false] at pos
      obtain ⟨j, later, rfl⟩ := Option.map_eq_some_iff.mp pos
      have other : groupName (x :: groups) g = groupName groups g := by simp [groupName, here]
      have inside : groupName groups g ∈ groups.map GroupItem.name := by
        obtain ⟨y, found⟩ : ∃ y, groups.find? (fun item => item.ptr = g) = some y := by
          have some' : (groups.findIdx? fun item => item.ptr = g).isSome =
              groups.any fun item => item.ptr = g := List.findIdx?_isSome
          rw [show groups.findIdx? (fun item => item.ptr = g) = some j from later] at some'
          obtain ⟨y, mem, hit⟩ := List.any_eq_true.mp some'.symm
          exact Option.isSome_iff_exists.mp (List.find?_isSome.mpr ⟨y, mem, hit⟩)
        rw [groupName, found]
        exact List.mem_map_of_mem (List.mem_of_find?_eq_some found)
      have differ : jStrcmp x.name (groupName groups g) ≠ 0 := by
        intro equal
        obtain ⟨s, one, two⟩ := (jStrcmp_eq_zero_iff _ _).mp equal
        exact fresh (one.trans two.symm ▸ inside)
      rw [other, ih (fun g' mem => named g' (List.mem_cons_of_mem _ mem)) rest later]
      simp [differ]

theorem privItem2xml_groups : xmlnodeGetTag (some (privItem2xml groups item)) (cstr "groups") =
    (groupsTag groups item).head? := by
  have missing : ∀ f ∈ contactFields item, cstr f.1 ≠ cstr "groups" := by
    simp only [contactFields, List.forall_mem_cons]
    exact ⟨by decide, by decide, by decide, by decide, by decide, by decide, by decide, by decide,
      by decide, by decide, by decide, nofun⟩
  have missed := Option.map_eq_none_iff.mp (fields_missing _ _ missing)
  rw [privItem2xml_eq]
  change List.find? _ (_ ++ _) = _
  rw [List.find?_append, missed, Option.none_or]
  unfold groupsTag
  split
  · rfl
  · rfl

/-- A saved contact describes the contact, apart from the flag `SpeakPres`. -/
theorem contactOf_privItem2xml (named : ∀ g ∈ groups, g.name.isSome)
    (distinct : (groups.map GroupItem.name).Nodup) (speak : item.speak.isSome)
    (display : item.displayName.or item.nickName = item.displayName)
    (members : ∀ g ∈ item.groups, (groupPos groups g).isSome) :
    contactOf (groups.map GroupItem.name) (privItem2xml groups item) =
      { item.contact groups with speakPres := true } := by
  obtain ⟨speak', spoken⟩ := Option.isSome_iff_exists.mp speak
  have items : tagIter (xmlnodeGetTag (some (privItem2xml groups item)) (cstr "groups"))
      (cstr "groupitem") = item.groups.map fun g => textTag "groupitem" (groupName groups g) := by
    rw [privItem2xml_groups, groupsTag]
    split
    · rename_i none
      rw [none]
      rfl
    · exact List.filter_eq_self.mpr fun n mem => by
        obtain ⟨g, _, rfl⟩ := List.mem_map.mp mem
        simp [textTag, XmlNode.isTag, XmlNode.name]
  have memberships : ((item.groups.map fun g => textTag "groupitem" (groupName groups g)).filterMap
      fun g => (groups.map GroupItem.name).findIdx? fun name =>
        jStrcmp name (xmlnodeGetData (some g)) = 0).map some = item.groups.map (groupPos groups) := by
    have all : item.groups.map (groupPos groups) =
        item.groups.filterMap (some ∘ groupPos groups) := by rw [List.filterMap_eq_map]
    rw [List.filterMap_map, List.map_filterMap, all]
    refine List.filterMap_congr fun g mem => ?_
    obtain ⟨i, pos⟩ := Option.isSome_iff_exists.mp (members g mem)
    simp only [Function.comp_apply, textTag_data, namePos groups named distinct pos, pos,
      Option.map_some]
  have text : ∀ f ∈ contactFields item, cstr "groups" ≠ cstr f.1 →
      xmlnodeGetTagData (some (privItem2xml groups item)) (cstr f.1) = f.2.1 :=
    fun f mem other => privItem2xml_text mem other
  simp only [contactFields, List.forall_mem_cons] at text
  obtain ⟨jid, nick, firstname, lastname, displayname, sms, cyfra, spoken', flashed, _, prestext, _⟩ :=
    text
  have flash : privFlag (some (privItem2xml groups item)) "flash" = item.flash := by
    rw [privFlag, flashed (by decide)]
    exact privFlag_flagText item.flash
  have speakPres : privFlag (some (privItem2xml groups item)) "speak_pres" = true := by
    rw [privFlag, privItem2xml_missing (by decide)]
    · decide
    · simp only [contactFields, List.forall_mem_cons]
      exact ⟨by decide, by decide, by decide, by decide, by decide, by decide, by decide,
        by decide, by decide, by decide, by decide, nofun⟩
  simp only [contactOf, items, memberships, flash, speakPres, jid (by decide), nick (by decide),
    firstname (by decide), lastname (by decide), displayname (by decide), sms (by decide),
    cyfra (by decide), spoken' (by decide), prestext (by decide), display, spoken, Option.some_or,
    PrivRosterItem.contact]

theorem group2xml_name (tag : String) (g : GroupItem) :
    xmlnodeGetTagData (some (group2xml tag g)) (cstr "name") = g.name := by
  rw [group2xml, tagData_eq, ← List.singleton_append, childText_append, childText_textTag, if_pos rfl]
  rfl

theorem group2xml_exp (tag : String) (g : GroupItem) :
    privFlag (some (group2xml tag g)) "exp" = g.exp := by
  rw [privFlag, group2xml, tagData_eq, ← List.singleton_append, childText_append,
    childText_textTag, if_neg (by decide), Option.none_or, childText_textTag, if_pos rfl]
  exact privFlag_flagText g.exp

theorem groupOf_group2xml (tag : String) (g : GroupItem) : groupOf (group2xml tag g) = g.data := by
  rw [groupOf, group2xml_name, group2xml_exp]
  rfl

/-- The stanza that saves a private roster. -/
def savedPriv (id : CString) (rost : PrivRost) (gall : GroupItem) : XmlNode :=
  .tag (cstr "iq") [(cstr "type", cstr "set"), (cstr "id", id)]
    [.tag (cstr "query") [(cstr "xmlns", cstr "jabber:iq:private")]
      [.tag (cstr "wpmsg") [(cstr "xmlns", cstr "wpmsg:extcontacts")]
        [.tag (cstr "contacts") [] (rost.privRostList.map (privItem2xml rost.groups)),
          .tag (cstr "groups") []
            (rost.groups.map (group2xml "group") ++ [group2xml "groupall" gall]),
          privData2xml rost.numextcontacts]]]

theorem privRosterList2xml_apply (u : UserPtr) {w : World} {gall : GroupItem}
    (loaded : (w.users u).privRost.loaded = true) (all : (w.users u).privRost.gall = some gall) :
    privRosterList2xml u w = .ok (some (savedPriv (jcomId idBufSize (w.users u).tmpid)
      (w.users u).privRost gall)) (w.drawId u) := by
  have same : ((w.drawId u).users u).privRost = (w.users u).privRost := by
    rw [World.drawId, users_emit, updUser_users_self]
  simp only [privRosterList2xml, queryWpmsgSetHeader, bind_apply, makeJcomId_apply, getUser_apply,
    pure_apply, same, loaded, all]
  rfl

section Tags

variable (gs : List GroupItem) (gall : GroupItem)

def groupsXml : XmlNode :=
  .tag (cstr "groups") [] (gs.map (group2xml "group") ++ [group2xml "groupall" gall])

theorem groupsXml_group :
    tagIter (some (groupsXml gs gall)) (cstr "group") = gs.map (group2xml "group") := by
  have own : (gs.map (group2xml "group")).filter (fun n => n.isTag && n.name = some (cstr "group")) =
      gs.map (group2xml "group") := List.filter_eq_self.mpr fun n mem => by
    obtain ⟨g, _, rfl⟩ := List.mem_map.mp mem
    simp [group2xml, XmlNode.isTag, XmlNode.name]
  change List.filter _ (_ ++ _) = _
  rw [List.filter_append, own]
  change _ ++ [] = _
  rw [List.append_nil]

theorem groupsXml_gall {name : CString} (named : gall.name = some name) :
    gallOf (some (groupsXml gs gall)) = gall.data := by
  have missed : (gs.map (group2xml "group")).find?
      (fun n => n.isTag && n.name = some (cstr "groupall")) = none :=
    List.find?_eq_none.mpr fun n mem => by
      obtain ⟨g, _, rfl⟩ := List.mem_map.mp mem
      have other : cstr "group" ≠ cstr "groupall" := by decide
      simp [group2xml, XmlNode.isTag, XmlNode.name, other]
  have found : xmlnodeGetTag (some (groupsXml gs gall)) (cstr "groupall") =
      some (group2xml "groupall" gall) := by
    change List.find? _ (_ ++ _) = _
    rw [List.find?_append, missed, Option.none_or]
    rfl
  rw [gallOf, found]
  simp only [group2xml_name, group2xml_exp, named, Option.getD_some, GroupItem.data]

end Tags

/-- The private roster that a saved one describes. -/
theorem privDataOf_savedPriv (id : CString) {rost : PrivRost} {gall : GroupItem} {name : CString}
    (all : rost.gall = some gall) (name : gall.name = some name)
    (named : ∀ g ∈ rost.groups, g.name.isSome)
    (distinct : (rost.groups.map GroupItem.name).Nodup)
    (contacts : ∀ item ∈ rost.privRostList, item.speak.isSome ∧
      item.displayName.or item.nickName = item.displayName ∧
      ∀ g ∈ item.groups, (groupPos rost.groups g).isSome) :
    privDataOf (some (savedPriv id rost gall)) = { rost.data with
      contacts := rost.data.contacts.map fun c => { c with speakPres := true } } := by
  have groups : (rost.groups.map (group2xml "group")).map groupOf = rost.groups.map GroupItem.data := by
    rw [List.map_map]
    exact List.map_congr_left fun g _ => groupOf_group2xml "group" g
  have names : (rost.groups.map GroupItem.data).map Prod.fst = rost.groups.map GroupItem.name := by
    rw [List.map_map]
    rfl
  have items : tagIter (some (.tag (cstr "contacts") [] (rost.privRostList.map
      (privItem2xml rost.groups)))) (cstr "item") = rost.privRostList.map (privItem2xml rost.groups) :=
    List.filter_eq_self.mpr fun n mem => by
      obtain ⟨item, _, rfl⟩ := List.mem_map.mp mem
      simp [privItem2xml, XmlNode.isTag, XmlNode.name]
  have data : privDataOf (some (savedPriv id rost gall)) =
      ⟨(tagIter (some (.tag (cstr "contacts") [] (rost.privRostList.map
        (privItem2xml rost.groups)))) (cstr "item")).map (contactOf (((tagIter
          (some (groupsXml rost.groups gall)) (cstr "group")).map groupOf).map Prod.fst)),
        (tagIter (some (groupsXml rost.groups gall)) (cstr "group")).map groupOf,
        some (gallOf (some (groupsXml rost.groups gall)))⟩ := rfl
  rw [data, items, groupsXml_group, groupsXml_gall _ _ name, groups, names]
  simp only [PrivRost.data, all, Option.map_some, List.map_map, PrivData.mk.injEq, and_true]
  refine List.map_congr_left fun item mem => ?_
  obtain ⟨speak, display, members⟩ := contacts item mem
  exact contactOf_privItem2xml named distinct speak display members

end Save

theorem gallOf_name (gxml : Option XmlNode) : ∃ name, (gallOf gxml).1 = some name := by
  unfold gallOf
  split
  · exact ⟨_, rfl⟩
  · exact ⟨_, rfl⟩

/-- What loading leaves of a private roster can be saved. -/
theorem privDataOf_saveable {rost : PrivRost} {xml : Option XmlNode}
    (data : rost.data = privDataOf xml) :
    (∃ gall name, rost.gall = some gall ∧ gall.name = some name) ∧
    ∀ item ∈ rost.privRostList, item.speak.isSome ∧
      item.displayName.or item.nickName = item.displayName ∧
      ∀ g ∈ item.groups, (groupPos rost.groups g).isSome := by
  obtain ⟨contacts, _, all⟩ := PrivData.mk.inj data
  constructor
  · obtain ⟨gall, some', same⟩ := Option.map_eq_some_iff.mp all
    obtain ⟨name, named⟩ := gallOf_name (xmlnodeGetTag (xmlnodeGetTag (xmlnodeGetTag xml
      (cstr "query")) (cstr "wpmsg")) (cstr "groups"))
    exact ⟨gall, name, some', (congrArg Prod.fst same).trans named⟩
  · intro item mem
    have inside := List.mem_map_of_mem (f := PrivRosterItem.contact rost.groups) mem
    rw [contacts] at inside
    obtain ⟨cur, _, same⟩ := List.mem_map.mp inside
    have speak := congrArg PrivContact.speak same
    have display := congrArg PrivContact.displayName same
    have nick := congrArg PrivContact.nickName same
    have groups := congrArg PrivContact.groups same
    refine ⟨?_, ?_, fun g member => ?_⟩
    · rw [show item.speak = _ from speak.symm]
      simp [contactOf]
    · rw [show item.displayName = _ from display.symm, show item.nickName = _ from nick.symm]
      simp only [contactOf, Option.or_assoc, Option.or_self]
    · have pos := List.mem_map_of_mem (f := groupPos rost.groups) member
      rw [show item.groups.map (groupPos rost.groups) = _ from groups.symm] at pos
      obtain ⟨i, _, at'⟩ := List.mem_map.mp pos
      rw [← at']
      rfl

section Reload

variable {w w₁ : World} {u : UserPtr} {xml : Option XmlNode}

/-- Loading what was saved turns the flag `SpeakPres` on and changes nothing else. -/
theorem privRoster_reload (ready : (w.users u).privRost.Ready)
    (loaded : privRosterFromXml u xml w = .ok ⟨⟩ w₁)
    (named : ∀ g ∈ (w₁.users u).privRost.groups, g.name.isSome)
    (distinct : ((w₁.users u).privRost.groups.map GroupItem.name).Nodup) :
    (w₁.users u).privRost.data = privDataOf xml ∧
    ∃ saved w₂, privRosterList2xml u w₁ = .ok (some saved) w₂ ∧
      ∀ v w₃, (w₃.users v).privRost.Ready → ∃ w₄, privRosterFromXml v (some saved) w₃ = .ok ⟨⟩ w₄ ∧
        (w₄.users v).privRost.data = { (w₁.users u).privRost.data with
          contacts := (w₁.users u).privRost.data.contacts.map fun c =>
            { c with speakPres := true } } := by
  obtain ⟨w', n, k, ran, priv⟩ := privRosterFromXml_apply u xml ready
  obtain rfl : w' = w₁ := by
    rw [ran] at loaded
    cases loaded
    rfl
  have data : (w'.users u).privRost.data = privDataOf xml := by rw [priv, privAt_data]
  have isLoaded : (w'.users u).privRost.loaded = true := by rw [priv]; rfl
  obtain ⟨⟨gall, name, all, gallName⟩, saveable⟩ := privDataOf_saveable data
  refine ⟨data, _, _, privRosterList2xml_apply u isLoaded all, fun v w₃ ready' => ?_⟩
  obtain ⟨w₄, n', k', ran', priv'⟩ := privRosterFromXml_apply v (some (savedPriv
    (jcomId idBufSize (w'.users u).tmpid) (w'.users u).privRost gall)) ready'
  refine ⟨w₄, ran', ?_⟩
  rw [priv', privAt_data, privDataOf_savedPriv _ all gallName named distinct saveable]

/-- A private roster that was loaded is saved, and loading what was saved gives the
same private roster exactly when every contact has the flag `SpeakPres`. -/
theorem privRoster_kept_iff (ready : (w.users u).privRost.Ready)
    (loaded : privRosterFromXml u xml w = .ok ⟨⟩ w₁)
    (named : ∀ g ∈ (w₁.users u).privRost.groups, g.name.isSome)
    (distinct : ((w₁.users u).privRost.groups.map GroupItem.name).Nodup) :
    ∃ saved w₂, privRosterList2xml u w₁ = .ok (some saved) w₂ ∧
      ∀ v w₃, (w₃.users v).privRost.Ready → ∃ w₄, privRosterFromXml v (some saved) w₃ = .ok ⟨⟩ w₄ ∧
        ((w₄.users v).privRost.data = (w₁.users u).privRost.data ↔
          ∀ item ∈ (w₁.users u).privRost.privRostList, item.speakPres = true) := by
  obtain ⟨_, saved, w₂, saves, reload⟩ := privRoster_reload ready loaded named distinct
  refine ⟨saved, w₂, saves, fun v w₃ ready' => ?_⟩
  obtain ⟨w₄, ran, data⟩ := reload v w₃ ready'
  refine ⟨w₄, ran, ?_⟩
  rw [data]
  simp only [PrivRost.data, PrivData.mk.injEq, and_true]
  constructor
  · intro same item mem
    rw [List.map_map] at same
    have kept := List.map_inj_left.mp same item mem
    exact (congrArg PrivContact.speakPres kept).symm
  · intro speaks
    rw [List.map_map]
    refine List.map_congr_left fun item mem => ?_
    simp [PrivRosterItem.contact, speaks item mem]

end Reload

/-- One contact whose presences are spoken or not. -/
def olaXml (speakPres : String) : XmlNode :=
  .tag (cstr "iq") [] [.tag (cstr "query") [] [.tag (cstr "wpmsg") [] [.tag (cstr "contacts") []
    [.tag (cstr "item") [] [textTag "jid" (some (cstr "ola@host")),
      textTag "speak_pres" (some (cstr speakPres))]]]]]

/-- The first user loads a private roster. -/
def loadedWorld (xml : XmlNode) : World :=
  match privRosterFromXml 0 (some xml) (plainWorld []) with
  | .ok _ w => w
  | .error _ w => w

theorem loadedWorld_loads (xml : XmlNode) :
    privRosterFromXml 0 (some xml) (plainWorld []) = .ok ⟨⟩ (loadedWorld xml) := by
  obtain ⟨w, n, k, ran, _⟩ := privRosterFromXml_apply (w := plainWorld []) 0 (some xml)
    fun _ => ⟨rfl, rfl⟩
  rw [loadedWorld, ran]

theorem privRoster_kept_iff_spoken :
    ∃ saved w₂, privRosterList2xml 0 (loadedWorld (olaXml "1")) = .ok (some saved) w₂ ∧
      ∃ w₄, privRosterFromXml 0 (some saved) (plainWorld []) = .ok ⟨⟩ w₄ ∧
        (w₄.users 0).privRost.data = ((loadedWorld (olaXml "1")).users 0).privRost.data := by
  obtain ⟨saved, w₂, saves, reload⟩ := privRoster_kept_iff (fun _ => ⟨rfl, rfl⟩)
    (loadedWorld_loads (olaXml "1")) (by decide +kernel) (by decide +kernel)
  obtain ⟨w₄, ran, kept⟩ := reload 0 (plainWorld []) fun _ => ⟨rfl, rfl⟩
  exact ⟨saved, w₂, saves, w₄, ran, kept.mpr (by decide +kernel)⟩

theorem muted_contact_speaks : ¬∀ (w w₁ : World) (u : UserPtr) (xml : Option XmlNode),
    (w.users u).privRost.Ready → privRosterFromXml u xml w = .ok ⟨⟩ w₁ →
    (∀ g ∈ (w₁.users u).privRost.groups, g.name.isSome) →
    ((w₁.users u).privRost.groups.map GroupItem.name).Nodup →
    ∀ saved w₂, privRosterList2xml u w₁ = .ok (some saved) w₂ →
      ∀ v w₃ w₄, (w₃.users v).privRost.Ready → privRosterFromXml v (some saved) w₃ = .ok ⟨⟩ w₄ →
        (w₄.users v).privRost.data = (w₁.users u).privRost.data := by
  intro claim
  have loads := loadedWorld_loads (olaXml "0")
  have ready : ((plainWorld []).users 0).privRost.Ready := fun _ => ⟨rfl, rfl⟩
  have named : ∀ g ∈ ((loadedWorld (olaXml "0")).users 0).privRost.groups, g.name.isSome := by
    decide +kernel
  have distinct : (((loadedWorld (olaXml "0")).users 0).privRost.groups.map GroupItem.name).Nodup := by
    decide +kernel
  obtain ⟨data, saved, w₂, saves, reload⟩ := privRoster_reload ready loads named distinct
  obtain ⟨w₄, ran, changed⟩ := reload 0 (plainWorld []) ready
  have same := claim _ _ 0 _ ready loads named distinct saved w₂ saves 0 _ w₄ ready ran
  rw [changed, data] at same
  have flags := congrArg (fun d => d.contacts.map PrivContact.speakPres) same
  exact absurd flags (by decide +kernel)

end JabSimul
