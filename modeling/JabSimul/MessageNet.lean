import JabSimul.MessageSpec
import JabSimul.XmlText
import Mathlib.Algebra.BigOperators.Group.List.Basic

/-!
Users that send messages to each other through a server. The server takes the texts
that were put into the queues and hands each of them over, or back, once. Sending and
handling run as the code does; what goes on besides may be anything.
-/
namespace JabSimul

open Simulation Relation

/-- How the server names the users. -/
structure Directory where
  jid : UserPtr → CString
  named : CString → UserPtr → Prop
  own : ∀ {u v}, named (jid u) v → v = u

/-- A message under way: the answer to an answer has taken one hop more. -/
structure Flight where
  sender : UserPtr
  text : CString
  origin : Nat
  hop : Nat
  deriving DecidableEq

structure Handing where
  flight : Flight
  user : UserPtr
  bounced : Bool
  samples : Nat

structure Net where
  world : World
  flights : List Flight
  handings : List Handing
  sends : Nat

/-- How a text without tags is read, up to one of the characters `ends`. -/
inductive CharData (ends : List Char) : CString → CString → Prop
  | nil : CharData ends [] []
  | plain {c s d} (inside : c ∉ ends) (rest : CharData ends s d) :
      CharData ends (c :: s) (c :: d)
  | entity {c s d} (escaped : escapeChar c ≠ [c]) (rest : CharData ends s d) :
      CharData ends (escapeChar c ++ s) (c :: d)

/-- A message as it was sent first. An empty body has no children. -/
def originalStanza (jidTo body : CString) : XmlNode :=
  .tag (cstr "message") [(cstr "to", jidTo)]
    [.tag (cstr "body") [] (if body = [] then [] else [.cdata body])]

/-- The stanza that a text spells. A first message is written with its text as it is, and
where that holds markup the text spells nothing here: no server hands it over. -/
inductive Spells : CString → XmlNode → Prop
  | node {x} (proper : x.Proper) : Spells (xmlnode2str x) x
  | message {jidFull msg jidTo body} (address : CharData ['<', '&', Char.ofNat 34] jidFull jidTo)
      (content : CharData ['<', '&'] msg body) : Spells (messageText jidFull msg) (originalStanza jidTo body)

/-- What the server keeps of a stanza. It may add what it likes to the children. -/
structure Relayed (x x' : XmlNode) : Prop where
  proper : x'.Proper
  name : x'.name = x.name
  kept : ∀ key, key ∉ [cstr "to", cstr "from", cstr "type"] →
    xmlnodeGetAttrib (some x') key = xmlnodeGetAttrib (some x) key
  body : xmlnodeGetTagData (some x') (cstr "body") = xmlnodeGetTagData (some x) (cstr "body")
  query : xmlnodeGetTag (some x') (cstr "query") = xmlnodeGetTag (some x) (cstr "query")

/-- What the server makes of a stanza of `u`: whether it is bounced, what is handed
over, and to whom. -/
inductive Directory.Hands (d : Directory) (u : UserPtr) (x : XmlNode) :
    Bool → XmlNode → UserPtr → Prop
  | delivered {x' jidTo v} (relayed : Relayed x x')
      (addressed : xmlnodeGetAttrib (some x) (cstr "to") = some jidTo) (named : d.named jidTo v)
      (target : xmlnodeGetAttrib (some x') (cstr "to") = some jidTo)
      (source : xmlnodeGetAttrib (some x') (cstr "from") = some (d.jid u))
      (type : xmlnodeGetAttrib (some x') (cstr "type") = xmlnodeGetAttrib (some x) (cstr "type")) :
      Hands d u x false x' v
  | bounced {x'} (relayed : Relayed x x')
      (target : xmlnodeGetAttrib (some x') (cstr "to") = some (d.jid u))
      (source : xmlnodeGetAttrib (some x') (cstr "from") = xmlnodeGetAttrib (some x) (cstr "to"))
      (type : xmlnodeGetAttrib (some x') (cstr "type") = some (cstr "error")) :
      Hands d u x true x' u

namespace Net

/-- The texts that a run put into queues. -/
def wrote (w w' : World) : List CString := w'.texts.take (w'.texts.length - w.texts.length)

def sending (net : Net) (u : UserPtr) (w : World) : Net where
  world := w
  flights := (wrote net.world w).map (⟨u, ·, net.sends, 0⟩) ++ net.flights
  handings := net.handings
  sends := net.sends + 1

def handing (net : Net) (f : Flight) (v : UserPtr) (bounced : Bool) (w : World) : Net where
  world := w
  flights := (wrote net.world w).map (⟨v, ·, f.origin, f.hop + 1⟩) ++ net.flights.erase f
  handings := ⟨f, v, bounced,
    ((w.users v).receivedMsgsCount - (net.world.users v).receivedMsgsCount).toNat⟩ :: net.handings
  sends := net.sends

/-- Every message that was put into a queue. -/
def messages (net : Net) : List Flight := net.flights ++ net.handings.map Handing.flight

/-- The samples that were taken for a message sent first. -/
def samples (net : Net) (origin : Nat) : Nat :=
  ((net.handings.filter (·.flight.origin = origin)).map Handing.samples).sum

/-- One step, in which a message is sent or handled only as `S` and `H` allow. -/
inductive StepWhile (d : Directory) (S : World → UserPtr → Option XmlNode → Prop)
    (H : World → UserPtr → XmlNode → Prop) : Net → Net → Prop
  | elsewhere {net : Net} {w : World} (same : w.globals.messages = net.world.globals.messages) :
      StepWhile d S H net { net with world := w }
  | send {net : Net} {u : UserPtr} {arg : Option XmlNode} {w : World}
      (allowed : S net.world u arg) (ran : evSendMessage arg u net.world = .ok ⟨⟩ w) :
      StepWhile d S H net (net.sending u w)
  | hand {net : Net} {f : Flight} {x x' : XmlNode} {bounced : Bool} {v : UserPtr} {now : Int}
      {w : World} (here : f ∈ net.flights) (spelled : Spells f.text x)
      (handed : d.Hands f.sender x bounced x' v) (allowed : H net.world v x')
      (ran : handleUserNode x' v now net.world = .ok ⟨⟩ w) :
      StepWhile d S H net (net.handing f v bounced w)

abbrev Step (d : Directory) : Net → Net → Prop :=
  StepWhile d (fun _ _ _ => True) fun _ _ _ => True

/-- Nothing was sent yet. -/
def Silent (net : Net) : Prop := net.flights = [] ∧ net.handings = []

end Net

section Attributes

theorem getAttrib_putAttrib (x : XmlNode) (tag : x.isTag) (key value other : CString) :
    xmlnodeGetAttrib (some (xmlnodePutAttrib x key (some value))) other =
      if key = other then some value else xmlnodeGetAttrib (some x) other := by
  cases x with
  | cdata d => cases tag
  | tag n as cs =>
    change ((putAttrib key value as).find? _).map _ = _
    change _ = if key = other then _ else (as.find? _).map _
    induction as with
    | nil =>
      by_cases same : key = other
      · simp [putAttrib, same]
      · simp [putAttrib, same]
    | cons a as ih =>
      by_cases here : a.1 = key
      · subst key
        by_cases same : a.1 = other
        · simp [putAttrib, same]
        · simp [putAttrib, same]
      · rw [putAttrib, if_neg here]
        by_cases same : a.1 = other
        · have differs : key ≠ other := fun eq => here (same.trans eq.symm)
          simp [same, differs]
        · simpa [same] using ih rfl

theorem putAttrib_keys {as : List (CString × CString)} (keys : ∀ a ∈ as, XmlName a.1)
    {key : CString} (name : XmlName key) (value : CString) :
    ∀ a ∈ putAttrib key value as, XmlName a.1 := by
  induction as with
  | nil =>
    intro a here
    rw [putAttrib, List.mem_singleton] at here
    rw [here]
    exact name
  | cons b as ih =>
    intro a here
    unfold putAttrib at here
    split at here
    · rcases List.mem_cons.mp here with rfl | later
      · exact name
      · exact keys a (List.mem_cons_of_mem _ later)
    · rcases List.mem_cons.mp here with rfl | later
      · exact keys a List.mem_cons_self
      · exact ih (fun b there => keys b (List.mem_cons_of_mem _ there)) a later

theorem putAttrib_proper {x : XmlNode} (proper : x.Proper) {key : CString} (name : XmlName key)
    (value : Option CString) : (xmlnodePutAttrib x key value).Proper := by
  cases value with
  | none => cases x <;> exact proper
  | some value =>
    cases proper with
    | cdata nonempty => exact .cdata nonempty
    | tag known keys kids => exact .tag known (putAttrib_keys keys name value) kids

/-- Putting an attribute, also one that is NULL. -/
theorem getAttrib_put_optional (x : XmlNode) (tag : x.isTag) (key other : CString)
    (value : Option CString) : xmlnodeGetAttrib (some (xmlnodePutAttrib x key value)) other =
      if key = other then value.or (xmlnodeGetAttrib (some x) other)
      else xmlnodeGetAttrib (some x) other := by
  cases value with
  | none => cases x <;> simp [xmlnodePutAttrib]
  | some value => rw [getAttrib_putAttrib x tag, Option.some_or]

theorem getAttrib_forwardedCopy (x : XmlNode) (tag : x.isTag) (key : CString) :
    xmlnodeGetAttrib (some (forwardedCopy x)) key =
      if cstr "forwarded" = key then some (cstr "yes")
      else if cstr "to" = key then
        (xmlnodeGetAttrib (some x) (cstr "from")).or (xmlnodeGetAttrib (some x) key)
      else if cstr "from" = key then
        (xmlnodeGetAttrib (some x) (cstr "to")).or (xmlnodeGetAttrib (some x) key)
      else xmlnodeGetAttrib (some x) key := by
  have tag₁ := (putAttrib_isTag x (cstr "from") (xmlnodeGetAttrib (some x) (cstr "to"))).trans tag
  unfold forwardedCopy jutilTofrom
  rw [getAttrib_put_optional _ ((putAttrib_isTag _ _ _).trans tag₁), Option.some_or,
    getAttrib_put_optional _ tag₁, getAttrib_put_optional _ tag]
  by_cases addressed : cstr "to" = key
  · have other : ¬cstr "from" = key := by
      rw [← addressed]
      decide
    simp only [addressed, other, if_true, if_false]
  · simp only [addressed, if_false]

theorem forwardedCopy_children (x : XmlNode) : (forwardedCopy x).children = x.children := by
  unfold forwardedCopy jutilTofrom
  rw [putAttrib_children, putAttrib_children, putAttrib_children]

theorem forwardedCopy_name (x : XmlNode) : (forwardedCopy x).name = x.name := by
  unfold forwardedCopy jutilTofrom
  rw [putAttrib_name, putAttrib_name, putAttrib_name]

theorem forwardedCopy_proper {x : XmlNode} (proper : x.Proper) : (forwardedCopy x).Proper := by
  unfold forwardedCopy jutilTofrom
  apply putAttrib_proper _ ⟨by decide, by decide⟩
  apply putAttrib_proper _ ⟨by decide, by decide⟩
  exact putAttrib_proper proper ⟨by decide, by decide⟩ _

end Attributes

section Stanzas

/-- A stanza that is handled as a message. One with an identifier or with a query passes
for an answer instead. -/
structure Message (x : XmlNode) : Prop where
  name : x.name = some (cstr "message")
  noId : xmlnodeGetAttrib (some x) (cstr "id") = none
  noQuery : xmlnodeGetTag (some x) (cstr "query") = none

theorem Message.isTag {x : XmlNode} (message : Message x) : x.isTag := by
  cases x with
  | tag n as cs => rfl
  | cdata d => cases message.name

theorem Message.handled {x : XmlNode} (message : Message x) (u : UserPtr) (now : Int) (w : World) :
    handleUserNode x u now w = handleMessage x u now w := by
  have noId : stanzaId x = none := by rw [stanzaId, message.noId, message.noQuery]
  have name : xmlnodeGetName (some x) = some (cstr "message") := message.name
  rw [handleUserNode, noId, name]
  rfl

theorem Message.relayed {x x' : XmlNode} (message : Message x) (relayed : Relayed x x') :
    Message x' := by
  refine ⟨relayed.name.trans message.name, ?_, relayed.query.trans message.noQuery⟩
  exact (relayed.kept _ (by decide)).trans message.noId

theorem Message.copy {x : XmlNode} (message : Message x) : Message (forwardedCopy x) := by
  refine ⟨(forwardedCopy_name x).trans message.name, ?_, ?_⟩
  · rw [getAttrib_forwardedCopy x message.isTag, if_neg (by decide), if_neg (by decide),
      if_neg (by decide)]
    exact message.noId
  · have same : xmlnodeGetFirstchild (some (forwardedCopy x)) = xmlnodeGetFirstchild (some x) :=
      forwardedCopy_children x
    rw [xmlnodeGetTag, same]
    exact message.noQuery

theorem getAttrib_alike {x y : XmlNode} (alike : x.Alike y) (key : CString) :
    xmlnodeGetAttrib (some y) key = xmlnodeGetAttrib (some x) key := by
  change (y.attribs.find? _).map _ = (x.attribs.find? _).map _
  rw [alike.attribs]

theorem Message.alike {x y : XmlNode} (message : Message x) (alike : x.Alike y) : Message y := by
  refine ⟨alike.name.trans message.name, (getAttrib_alike alike _).trans message.noId, ?_⟩
  have same := alike.tags (cstr "query")
  rw [message.noQuery] at same
  exact Option.not_isSome_iff_eq_none.mp (by simp [same])

theorem originalStanza_message (jidTo body : CString) : Message (originalStanza jidTo body) :=
  ⟨rfl, rfl, rfl⟩

theorem originalStanza_proper (jidTo body : CString) : (originalStanza jidTo body).Proper := by
  apply XmlNode.Proper.tag ⟨by decide, by decide⟩
  · intro a here
    cases List.mem_singleton.mp here
    have name : XmlName (cstr "to") := ⟨by decide, by decide⟩
    exact name
  · intro c here
    cases List.mem_singleton.mp here
    apply XmlNode.Proper.tag ⟨by decide, by decide⟩
    · intro a there
      cases there
    · intro c there
      split at there
      · cases there
      · rename_i some
        cases List.mem_singleton.mp there
        exact .cdata some

/-- A text with quotation marks is not one of `xmlnode2str`. -/
theorem messageText_ne {x : XmlNode} (proper : x.Proper) (jidFull msg : CString) :
    xmlnode2str x ≠ messageText jidFull msg := by
  intro same
  have shape : messageText jidFull msg = '<' :: (cstr "message" ++ ' ' :: (cstr "to" ++ '=' ::
      Char.ofNat 34 :: (jidFull ++ (cstr "\"><body>" ++ (msg ++ cstr "</body></message>"))))) := by
    simp [messageText, cstr]
  rw [shape] at same
  cases proper with
  | @cdata d nonempty =>
    cases d with
    | nil => exact nonempty rfl
    | cons c d =>
      have leads := congrArg lead same
      rw [lead_tag ⟨by decide, by decide⟩, xmlnode2str] at leads
      cases (lead_escapeChar c (strescape d)).symm.trans leads
  | @tag n as cs name keys kids =>
    rw [tag_text] at same
    injection same with _ same
    have heads := attribs_head as n cs []
    rw [List.append_nil] at heads
    obtain ⟨-, same⟩ := name.cut ⟨by decide, by decide⟩ heads (by simp) same
    cases as with
    | nil =>
      cases cs with
      | nil => cases same
      | cons c cs => cases same
    | cons a as =>
      rw [attribsStr_cons, List.cons_append, List.append_assoc] at same
      injection same with _ same
      obtain ⟨-, same⟩ := XmlName.cut (keys a List.mem_cons_self) ⟨by decide, by decide⟩ (by simp)
        (by simp) same
      injection same with _ same
      injection same with quote _
      exact absurd quote (by decide)

theorem Spells.original {t : CString} {x : XmlNode} (spelled : Spells t x) {jidFull msg : CString}
    (text : t = messageText jidFull msg) : ∃ jidTo body, x = originalStanza jidTo body := by
  cases spelled with
  | node proper => exact absurd text (messageText_ne proper _ _)
  | message address content => exact ⟨_, _, rfl⟩

theorem Spells.alike {t : CString} {x y : XmlNode} (spelled : Spells t x) (proper : y.Proper)
    (tag : y.isTag) (text : t = xmlnode2str y) : y.Alike x := by
  cases spelled with
  | message address content => exact absurd text.symm (messageText_ne proper _ _)
  | node proper' =>
    cases y with
    | cdata d => cases tag
    | tag n as cs => exact alike_of_text proper proper' text.symm

end Stanzas

section Server

/-- A stanza as it is delivered for the user with the given jid. -/
def deliveredStanza (jid : CString) (x : XmlNode) : XmlNode :=
  xmlnodePutAttrib x (cstr "from") (some jid)

/-- A stanza as it is bounced. -/
def bouncedStanza (jid : CString) (x : XmlNode) : XmlNode :=
  xmlnodePutAttrib (xmlnodePutAttrib (xmlnodePutAttrib x (cstr "from")
    (xmlnodeGetAttrib (some x) (cstr "to"))) (cstr "to") (some jid)) (cstr "type")
    (some (cstr "error"))

theorem Relayed.refl {x : XmlNode} (proper : x.Proper) : Relayed x x :=
  ⟨proper, rfl, fun _ _ => rfl, rfl, rfl⟩

theorem firstchild_putAttrib (x : XmlNode) (key : CString) (value : Option CString) :
    xmlnodeGetFirstchild (some (xmlnodePutAttrib x key value)) = xmlnodeGetFirstchild (some x) :=
  putAttrib_children x key value

/-- Only what the kept attributes do not contain is written. -/
theorem Relayed.put {x x' : XmlNode} (relayed : Relayed x x') (tag : x'.isTag) (key : CString)
    (ours : key ∈ [cstr "to", cstr "from", cstr "type"]) (value : Option CString) :
    Relayed x (xmlnodePutAttrib x' key value) := by
  have name : XmlName key := by
    simp only [List.mem_cons, List.not_mem_nil, or_false] at ours
    rcases ours with rfl | rfl | rfl
    · exact ⟨by decide, by decide⟩
    · exact ⟨by decide, by decide⟩
    · exact ⟨by decide, by decide⟩
  refine ⟨putAttrib_proper relayed.proper name value, ?_, ?_, ?_, ?_⟩
  · exact (putAttrib_name _ _ _).trans relayed.name
  · intro other foreign
    rw [getAttrib_put_optional _ tag, if_neg, relayed.kept other foreign]
    rintro rfl
    exact foreign ours
  · rw [xmlnodeGetTagData, xmlnodeGetTag, firstchild_putAttrib]
    exact relayed.body
  · rw [xmlnodeGetTag, firstchild_putAttrib]
    exact relayed.query

variable {d : Directory} {u v : UserPtr} {x : XmlNode}

/-- A server may deliver what is addressed to a user. -/
theorem Directory.hands_delivered (proper : x.Proper) (tag : x.isTag) {jidTo : CString}
    (addressed : xmlnodeGetAttrib (some x) (cstr "to") = some jidTo) (named : d.named jidTo v) :
    d.Hands u x false (deliveredStanza (d.jid u) x) v := by
  have relayed := (Relayed.refl proper).put tag (cstr "from") (by simp) (some (d.jid u))
  apply Directory.Hands.delivered relayed addressed named
  · rw [getAttrib_put_optional _ tag, if_neg (by decide)]
    exact addressed
  · rw [getAttrib_put_optional _ tag, if_pos rfl]
    rfl
  · rw [getAttrib_put_optional _ tag, if_neg (by decide)]

/-- A server may bounce everything. -/
theorem Directory.hands_bounced (proper : x.Proper) (tag : x.isTag) {jidTo : CString}
    (addressed : xmlnodeGetAttrib (some x) (cstr "to") = some jidTo) :
    d.Hands u x true (bouncedStanza (d.jid u) x) u := by
  have tag₁ := (putAttrib_isTag x (cstr "from") (some jidTo)).trans tag
  have tag₂ := (putAttrib_isTag _ (cstr "to") (some (d.jid u))).trans tag₁
  have relayed := (((Relayed.refl proper).put tag (cstr "from") (by simp) (some jidTo)).put tag₁
    (cstr "to") (by simp) (some (d.jid u))).put tag₂ (cstr "type") (by simp)
    (some (cstr "error"))
  unfold bouncedStanza
  rw [addressed]
  apply Directory.Hands.bounced relayed
  · rw [getAttrib_put_optional _ tag₂, if_neg (by decide), getAttrib_put_optional _ tag₁,
      if_pos rfl]
    rfl
  · rw [getAttrib_put_optional _ tag₂, if_neg (by decide), getAttrib_put_optional _ tag₁,
      if_neg (by decide), getAttrib_put_optional _ tag, if_pos rfl, addressed]
    rfl
  · rw [getAttrib_put_optional _ tag₂, if_pos rfl]
    rfl

/-- A text without any of the characters is read as it stands. -/
theorem charData_plain {ends : List Char} {s : CString} (plain : ∀ c ∈ s, c ∉ ends) :
    CharData ends s s := by
  induction s with
  | nil => exact .nil
  | cons c s ih =>
    exact .plain (plain c List.mem_cons_self) (ih fun c later => plain c (List.mem_cons_of_mem _ later))

end Server

end JabSimul
