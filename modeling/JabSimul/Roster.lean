import JabSimul.JcomId

/-!
The roster that the server keeps for a user, held in a hash table of items, and
the private contacts and groups that the user stores on the server itself.
-/
namespace JabSimul

def subsNone : Nat := 0
def subsTo : Nat := 1
def subsFrom : Nat := 2
def subsBoth : Nat := 3

def findPrivByJid (list : List PrivRosterItem) (jid : CString) : Option PrivPtr :=
  (list.find? (fun p => jStrcmp p.jid (some jid) = 0)).map PrivRosterItem.ptr

namespace World

/-- The text that a roster key points at. -/
def rosterText (w : World) (p : RosterPtr) : CString := (w.rosterItems p).item.jid

def allocRosterItem (w : World) (ri : RosterItem) : World :=
  { w with
    rosterItems := Function.update w.rosterItems w.nextPtr ⟨ri, true⟩
    nextPtr := w.nextPtr + 1 }

def updRosterItem (w : World) (p : RosterPtr) (f : RosterItem → RosterItem) : World :=
  { w with rosterItems :=
      Function.update w.rosterItems p { w.rosterItems p with item := f (w.rosterItems p).item } }

def setRosterHash (w : World) (u : UserPtr) (h : Option RosterHash) : World :=
  w.updUser u fun user => { user with rosterHash := h }

/-- `roster_count` and `glob_roster_count` change together. -/
def addRosterCount (w : World) (u : UserPtr) (d : Int) : World :=
  (w.updUser u fun user => { user with rosterCount := user.rosterCount + d }).updGlobals
    fun g => { g with globRosterCount := g.globRosterCount + d }

end World

def rosterItemCreate (jid nick : Option CString) (subscribe : Nat)
    (privList : List PrivRosterItem) : RosterItem :=
  let jid := jid.getD []
  ⟨jid, nick.getD jid, subscribe, findPrivByJid privList jid, false⟩

def rosterItemDelete (w : World) (p : RosterPtr) : World :=
  { w with rosterItems := Function.update w.rosterItems p { w.rosterItems p with live := false } }

def rosterHashDelete (u : UserPtr) (w : World) : World :=
  match (w.users u).rosterHash with
  | none => w
  | some h =>
      let w := (xhashWalk h).foldl (fun w kv => rosterItemDelete w kv.2) w
      let count := (w.users u).rosterCount
      ((w.updUser u fun user =>
          { user with rosterHash := none, lastRosterCount := count, rosterCount := 0 }).updGlobals
        fun g => { g with globRosterCount := g.globRosterCount - count })

def rosterItemFromXml (privList : List PrivRosterItem) (xml : XmlNode) : RosterItem :=
  let sub := xmlnodeGetAttrib (some xml) (cstr "subscription")
  let subscr :=
    if jStrcasecmp sub (some (cstr "from")) = 0 then subsFrom
    else if jStrcasecmp sub (some (cstr "to")) = 0 then subsTo
    else if jStrcasecmp sub (some (cstr "both")) = 0 then subsBoth
    else subsNone
  rosterItemCreate (xmlnodeGetAttrib (some xml) (cstr "jid"))
    (xmlnodeGetAttrib (some xml) (cstr "nick")) subscr privList

def isRemoval (xml : XmlNode) : Bool :=
  jStrcasecmp (xmlnodeGetAttrib (some xml) (cstr "subscription")) (some (cstr "remove")) = 0

/-- The removal of an item with the jid of `ri` that the hash already holds. -/
def rosterDropOld (u : UserPtr) (h : RosterHash) (ri : RosterPtr) (w : World) : World :=
  match xhashGet w.rosterText h (w.rosterText ri) with
  | none => w
  | some oldri =>
      let w := w.setRosterHash u (some (xhashZap w.rosterText h (w.rosterText ri)))
      (rosterItemDelete w oldri).addRosterCount u (-1)

/-- The body of the loop over the items of a stanza. -/
def rosterStoreItem (u : UserPtr) (w : World) (cur : XmlNode) : World :=
  match (w.users u).rosterHash with
  | none => w
  | some h =>
      let ri := w.nextPtr
      let w := w.allocRosterItem (rosterItemFromXml (w.users u).privRost.privRostList cur)
      let w := rosterDropOld u h ri w
      if isRemoval cur then rosterItemDelete w ri
      else
        match (w.users u).rosterHash with
        | none => w
        | some h => (w.setRosterHash u (some (xhashPut w.rosterText h ri ri))).addRosterCount u 1

/-- The part of `roster_hash_from_xml` before its loop: the old roster goes
away on demand, and a user without a hash gets one. -/
def rosterHashOpen (u : UserPtr) (xml : Option XmlNode) (delete : Bool) (w : World) : World :=
  let count := xmlnodeCountTags xml
  let w := if delete then rosterHashDelete u w else w
  match (w.users u).rosterHash with
  | none => w.setRosterHash u (some (xhashNew (fitPrime count)))
  | some _ => w

/-- The same up to the end of its loop. -/
def rosterHashStore (u : UserPtr) (xml : Option XmlNode) (delete : Bool) (w : World) : World :=
  (tagIter xml (cstr "item")).foldl (rosterStoreItem u) (rosterHashOpen u xml delete w)

def rosterHashFromXml (u : UserPtr) (xml : Option XmlNode) (delete : Bool) (w : World) : World :=
  let w := rosterHashStore u xml delete w
  let user := w.users u
  if delete ∧ user.lastRosterCount ≠ -1 ∧ user.lastRosterCount ≠ user.rosterCount then
    w.userDebug u .rosterCountMismatch
  else w

namespace World

def updPrivRost (w : World) (u : UserPtr) (f : PrivRost → PrivRost) : World :=
  w.updUser u fun user => { user with privRost := f user.privRost }

end World

def groupItemCreate (name : Option CString) (exp : Bool) : M GroupItem := do
  let w ← get
  set { w with nextPtr := w.nextPtr + 1 }
  return ⟨w.nextPtr, name, exp⟩

def privRosterItemCreate (jid displayname nick firstname lastname sms cyfra speak : Option CString)
    (flash speakPres : Bool) (presText : Option CString) : M PrivRosterItem := do
  let w ← get
  set { w with nextPtr := w.nextPtr + 1 }
  return {
    ptr := w.nextPtr
    jid := jid
    nickName := nick
    displayName := displayname.or nick
    firstName := firstname
    sms := sms
    cyfra := cyfra
    lastName := lastname
    speak := speak.or (some (cstr "Standard"))
    flash := flash
    speakPres := speakPres
    presenceText := presText
    groups := [] }

def privRosterDelete (u : UserPtr) : M Unit :=
  modify fun w => w.updPrivRost u fun p =>
    { p with privRostList := [], groups := [], gall := none, loaded := false }

/-- The text of a child tag is compared with `"0"`, so a missing one means true. -/
def privFlag (x : Option XmlNode) (name : String) : Bool :=
  jStrcmp (xmlnodeGetTagData x (cstr name)) (some (cstr "0")) ≠ 0

def privLoadContact (groups : List GroupItem) (cur : XmlNode) : M PrivRosterItem := do
  let data := fun name => xmlnodeGetTagData (some cur) (cstr name)
  let pri ← privRosterItemCreate (data "jid") (data "displayname") (data "nick") (data "firstname")
    (data "lastname") (data "sms") (data "cyfra") (data "speak")
    (privFlag (some cur) "flash") (privFlag (some cur) "speak_pres") (data "prestext")
  let names := (tagIter (xmlnodeGetTag (some cur) (cstr "groups")) (cstr "groupitem")).map
    fun g => xmlnodeGetData (some g)
  let member := fun gname => groups.find? fun g => jStrcmp g.name gname = 0
  return { pri with groups := (names.filterMap member).map GroupItem.ptr }

/-- An empty stanza writes nothing through `tail`, which starts at the list head. -/
def privLoadContacts (u : UserPtr) (cxml : Option XmlNode) : M Unit := do
  let groups := (← getUser u).privRost.groups
  let items ← (tagIter cxml (cstr "item")).mapM (privLoadContact groups)
  if items ≠ [] then
    modify fun w => w.updPrivRost u fun p => { p with privRostList := items }

def privLoadGroup (cur : XmlNode) : M GroupItem :=
  groupItemCreate (xmlnodeGetTagData (some cur) (cstr "name")) (privFlag (some cur) "exp")

def privLoadGroups (u : UserPtr) (gxml : Option XmlNode) : M Unit := do
  let items ← (tagIter gxml (cstr "group")).mapM privLoadGroup
  if items ≠ [] then
    modify fun w => w.updPrivRost u fun p => { p with groups := items }
  let everybody := cstr "Wszyscy"
  let gall ← match xmlnodeGetTag gxml (cstr "groupall") with
    | some groupAll =>
        groupItemCreate (some ((xmlnodeGetTagData (some groupAll) (cstr "name")).getD everybody))
          (privFlag (some groupAll) "exp")
    | none => groupItemCreate (some everybody) true
  modify fun w => w.updPrivRost u fun p => { p with gall := some gall }

def privRosterFromXml (u : UserPtr) (xml : Option XmlNode) : M Unit := do
  let wpmsg := xmlnodeGetTag (xmlnodeGetTag xml (cstr "query")) (cstr "wpmsg")
  if (← getUser u).privRost.loaded then privRosterDelete u
  privLoadGroups u (xmlnodeGetTag wpmsg (cstr "groups"))
  privLoadContacts u (xmlnodeGetTag wpmsg (cstr "contacts"))
  modify fun w => w.updPrivRost u fun p => { p with loaded := true }

/-- `xmlnode_insert_cdata(xmlnode_insert_tag(parent,name),text,-1)`. -/
def textTag (name : String) (text : Option CString) : XmlNode :=
  .tag (cstr name) [] (text.toList.map .cdata)

/-- The same under the condition that there is a text. -/
def optTextTag (name : String) (text : Option CString) : List XmlNode :=
  match text with
  | none => []
  | some _ => [textTag name text]

def flagText (b : Bool) : Option CString := some (if b then cstr "1" else cstr "0")

/-- The header waits for the children of its `wpmsg` tag. -/
def queryWpmsgSetHeader (u : UserPtr) (nsWpmsg : CString) : M (List XmlNode → XmlNode) := do
  let id ← makeJcomId u idBufSize
  return fun children =>
    .tag (cstr "iq") [(cstr "type", cstr "set"), (cstr "id", id)]
      [.tag (cstr "query") [(cstr "xmlns", cstr "jabber:iq:private")]
        [.tag (cstr "wpmsg") [(cstr "xmlns", nsWpmsg)] children]]

def groupName (groups : List GroupItem) (g : GroupPtr) : Option CString :=
  (groups.find? fun item => item.ptr = g).bind GroupItem.name

def privItem2xml (groups : List GroupItem) (item : PrivRosterItem) : XmlNode :=
  .tag (cstr "item") [] <|
    optTextTag "jid" item.jid ++ [textTag "nick" item.nickName] ++
    optTextTag "firstname" item.firstName ++ optTextTag "lastname" item.lastName ++
    optTextTag "displayname" item.displayName ++ optTextTag "sms" item.sms ++
    optTextTag "cyfra" item.cyfra ++ optTextTag "speak" item.speak ++
    [textTag "flash" (flagText item.flash), textTag "speakpres" (flagText item.speakPres)] ++
    optTextTag "prestext" item.presenceText ++
    (if item.groups = [] then []
      else [.tag (cstr "groups") []
        (item.groups.map fun g => textTag "groupitem" (groupName groups g))])

def group2xml (tag : String) (g : GroupItem) : XmlNode :=
  .tag (cstr tag) [] [textTag "name" g.name, textTag "exp" (flagText g.exp)]

def privData2xml (numextcontacts : Int) : XmlNode :=
  textTag "data" (some (apSnprintf 20 (fmtI numextcontacts)))

def privRosterList2xml (u : UserPtr) : M (Option XmlNode) := do
  let iq ← queryWpmsgSetHeader u (cstr "wpmsg:extcontacts")
  let rost := (← getUser u).privRost
  if !rost.loaded then return none
  match rost.gall with
  | none => throw .crash
  | some gall =>
      return some <| iq
        [.tag (cstr "contacts") [] (rost.privRostList.map (privItem2xml rost.groups)),
          .tag (cstr "groups") [] (rost.groups.map (group2xml "group") ++ [group2xml "groupall" gall]),
          privData2xml rost.numextcontacts]

def privRosterNumextcontacts2xml (u : UserPtr) : M (Option XmlNode) := do
  let iq ← queryWpmsgSetHeader u (cstr "wpmsg:numextcontacts")
  let rost := (← getUser u).privRost
  if !rost.loaded then return none
  return some (iq [privData2xml rost.numextcontacts])

end JabSimul
