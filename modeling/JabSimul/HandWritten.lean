import JabSimul.MessageSource
import JabSimul.RequestSpec
import JabSimul.ThreadRefinement
import JabSimul.Lib.XmlReading

/-!
The stanzas that are not written by `xmlnode` but by `printf` from a template: the two
that log in, and a message. Nothing is escaped there.
-/
namespace JabSimul

open XmlReading MemoryBlock Simulation

/-- The text is read as the stanza `x`. -/
def ReadsAs (s : CString) (x : XmlNode) : Prop := Reads XmlNode.tag XmlNode.cdata s x

abbrev Children : CString → List XmlNode → Prop := Content XmlNode.tag XmlNode.cdata

/-- What the first tag of a name says, if there is one. -/
def xmlnodeText (parent : Option XmlNode) (name : CString) : Option CString :=
  (xmlnodeGetTag parent name).map fun x => (xmlnodeGetData (some x)).getD []

/-- The user, the secret in its tag and the resource that a stanza logs in with. -/
structure LogsIn (field : String) (user secret resource : CString) (x : XmlNode) : Prop where
  user : xmlnodeText (xmlnodeGetTag (some x) (cstr "query")) (cstr "username") = some user
  secret : xmlnodeText (xmlnodeGetTag (some x) (cstr "query")) (cstr field) = some secret
  resource : xmlnodeText (xmlnodeGetTag (some x) (cstr "query")) (cstr "resource") = some resource

structure Tells (jidTo body : CString) (x : XmlNode) : Prop where
  address : xmlnodeGetAttrib (some x) (cstr "to") = some jidTo
  body : xmlnodeText (some x) (cstr "body") = some body

/-- The array of a thousand bytes on the stack that both log in with. -/
def xmlBuf : Block Char := ⟨1000, fun _ => none, false⟩

def loginPlainBuf (text : CString) : Option (Block Char) := some (snprintfInto xmlBuf 1000 text).1

def loginDigestBuf (text : CString) : Option (Block Char) := some (xmlBuf.puts 0 (text ++ [nul]))

def sendMessageBuf (jidFull msg : CString) : Option (Block Char) :=
  (pmalloc (asInt (msg.length + jidFull.length + 500))).map fun ret =>
    ret.puts 0 (messageText jidFull msg ++ [nul])

/-- The formatted text fits into its buffer, is queued as it is, and is read as a stanza
with the fields that were to be written. -/
structure HandWritten (w w' : World) (buffer : Option (Block Char)) (text : CString)
    (Carries : XmlNode → Prop) : Prop where
  fits : ∃ b, buffer = some b ∧ Holds b text
  queued : w'.texts = text :: w.texts
  read : ∃ x, ReadsAs text x ∧ Carries x

section Fields

variable {s c z d d₀ n m : CString} {kids ks more : List XmlNode}

/-- What a list of children says in the first tag of a name. -/
def fieldOf (kids : List XmlNode) (n : CString) : Option CString :=
  (kids.find? fun x => x.isTag && x.name = some n).map fun x => (xmlnodeGetData (some x)).getD []

theorem fieldOf_self (n : CString) (as : List (CString × CString)) (ks more : List XmlNode) :
    fieldOf (.tag n as ks :: more) n = some ((childData ks).getD []) := by
  simp [fieldOf, XmlNode.isTag, XmlNode.name, xmlnodeGetData]

theorem fieldOf_other (as : List (CString × CString)) (ks more : List XmlNode) (other : m ≠ n) :
    fieldOf (.tag m as ks :: more) n = fieldOf more n := by
  simp [fieldOf, XmlNode.isTag, XmlNode.name, other]

theorem fieldOf_cdata (d : CString) (more : List XmlNode) :
    fieldOf (.cdata d :: more) n = fieldOf more n := by
  simp [fieldOf, XmlNode.isTag]

theorem leading : Leading XmlNode.tag XmlNode.cdata leadingData :=
  ⟨rfl, fun _ _ => rfl, fun _ _ _ _ => rfl⟩

theorem childData_cdata (d : CString) (kids : List XmlNode) :
    (childData (.cdata d :: kids)).getD [] = leadingData (.cdata d :: kids) := rfl

/-- The data is no longer than the text, and shorter if an element stands before it. -/
theorem childData_le (read : Children s ks) : ((childData ks).getD []).length ≤ s.length ∧
    (s.length ≤ ((childData ks).getD []).length → (childData ks).getD [] = leadingData ks) := by
  induction read with
  | nil => exact ⟨Nat.le_refl _, fun _ => rfl⟩
  | char legal plain closed rest ih =>
    rw [childData_cdata]
    exact ⟨leading.length_le (.char legal plain closed rest), fun _ => rfl⟩
  | reference reference rest ih =>
    rw [childData_cdata]
    exact ⟨leading.length_le (.reference reference rest), fun _ => rfl⟩
  | literal encoded closed rest ih =>
    rw [childData_cdata]
    exact ⟨leading.length_le (.literal encoded closed rest), fun _ => rfl⟩
  | comment encoded closed rest ih =>
    obtain ⟨less, same⟩ := ih
    simp only [List.length_append]
    exact ⟨by omega, fun long => same (by omega)⟩
  | instruction name reserved apart encoded closed rest ih =>
    obtain ⟨less, same⟩ := ih
    simp only [List.length_append]
    exact ⟨by omega, fun long => same (by omega)⟩
  | empty name attributes unique blank rest ih =>
    obtain ⟨less, _⟩ := ih
    simp only [childData, List.length_append, List.length_cons]
    exact ⟨by omega, fun long => absurd long (by omega)⟩
  | element name attributes unique blank inside blank' rest ih ih' =>
    obtain ⟨less, _⟩ := ih'
    simp only [childData, List.length_append, List.length_cons]
    exact ⟨by omega, fun long => absurd long (by omega)⟩

/-- The least room that a field takes. -/
def fieldCost (n d : CString) : Nat := if d = [] then n.length + 3 else d.length + 2 * n.length + 5

theorem fieldCost_nil_le (n d : CString) : n.length + 3 ≤ fieldCost n d := by
  unfold fieldCost
  split <;> omega

theorem fieldCost_le (n : CString) (long : d.length ≤ s.length) :
    fieldCost n d ≤ s.length + 2 * n.length + 5 := by
  unfold fieldCost
  split <;> omega

/-- The room that the fields with the given names take. -/
def fieldsCost (kids : List XmlNode) (names : List CString) : Nat :=
  (names.map fun n => ((fieldOf kids n).map (fieldCost n)).getD 0).sum

theorem fieldsCost_cdata (d : CString) (kids : List XmlNode) (names : List CString) :
    fieldsCost (.cdata d :: kids) names = fieldsCost kids names := by
  simp only [fieldsCost, fieldOf_cdata]

theorem fieldsCost_other {names : List CString} (as : List (CString × CString)) (ks kids : List XmlNode)
    (other : n ∉ names) : fieldsCost (.tag n as ks :: kids) names = fieldsCost kids names := by
  unfold fieldsCost
  congr 1
  apply List.map_congr_left
  intro m here
  have apart : n ≠ m := by
    rintro rfl
    exact other here
  rw [fieldOf_other as ks kids apart]

/-- A further element is one of the fields at most. -/
theorem fieldsCost_tag {names : List CString} (as : List (CString × CString)) (ks kids : List XmlNode)
    (unique : names.Nodup) : fieldsCost (.tag n as ks :: kids) names ≤
      fieldCost n ((childData ks).getD []) + fieldsCost kids names := by
  induction names with
  | nil => exact Nat.zero_le _
  | cons m names ih =>
    obtain ⟨fresh, unique⟩ := List.nodup_cons.mp unique
    by_cases same : n = m
    · subst same
      have others := fieldsCost_other as ks kids fresh
      simp only [fieldsCost, List.map_cons, List.sum_cons, fieldOf_self, Option.map_some,
        Option.getD_some] at others ⊢
      omega
    · have others := ih unique
      simp only [fieldsCost, List.map_cons, List.sum_cons, fieldOf_other as ks kids same] at others ⊢
      omega

theorem fieldsCost_le {names : List CString} (read : Children s kids) (unique : names.Nodup) :
    fieldsCost kids names ≤ s.length := by
  induction read with
  | nil =>
    have nothing : fieldsCost [] names = 0 := by simp [fieldsCost, fieldOf]
    rw [nothing]
    exact Nat.zero_le _
  | char legal plain closed rest ih =>
    rw [fieldsCost_cdata, List.length_append]
    exact Nat.le_add_left_of_le ih
  | reference reference rest ih =>
    rw [fieldsCost_cdata, List.length_append]
    exact Nat.le_add_left_of_le ih
  | literal encoded closed rest ih =>
    rw [fieldsCost_cdata]
    simp only [List.length_append]
    omega
  | comment encoded closed rest ih =>
    simp only [List.length_append]
    omega
  | instruction name reserved apart encoded closed rest ih =>
    simp only [List.length_append]
    omega
  | @empty n a as b s kids name attributes unique' blank rest ih =>
    have more := fieldsCost_tag (n := n) as [] kids unique
    have cost : fieldCost n ((childData ([] : List XmlNode)).getD []) = n.length + 3 := if_pos rfl
    simp only [List.length_append, List.length_cons]
    omega
  | @element n a as b inner ks e s kids name attributes unique' blank inside blank' rest ih ih' =>
    have more := fieldsCost_tag (n := n) as ks kids unique
    have cost := fieldCost_le n (childData_le inside).1
    simp only [List.length_append, List.length_cons]
    omega

theorem fieldOf_cost (read : Children s kids) (field : fieldOf kids n = some d) :
    fieldCost n d ≤ s.length := by
  have cost := fieldsCost_le read (List.nodup_singleton n)
  simpa [fieldsCost, field] using cost

/-- Two fields take room for both. -/
theorem fieldOf_costs {e : CString} (read : Children s kids) (apart : n ≠ m)
    (field : fieldOf kids n = some d) (field' : fieldOf kids m = some e) :
    fieldCost n d + fieldCost m e ≤ s.length := by
  have unique : [n, m].Nodup := by simp [apart]
  have cost := fieldsCost_le read unique
  simpa [fieldsCost, field, field'] using cost

/-- A mark that is found behind a text without its first character. -/
theorem behind_of_not_mem {a : Char} {p l x z : CString} (none : a ∉ p) (same : p ++ z = l ++ a :: x) :
    ∃ l', l = p ++ l' ∧ z = l' ++ a :: x := by
  rcases List.append_eq_append_iff.mp same with ⟨l', rfl, rfl⟩ | ⟨p', rfl, tail⟩
  · exact ⟨l', rfl, rfl⟩
  · cases p' with
    | nil => exact ⟨[], by simp, tail.symm⟩
    | cons b p' =>
      injection tail with first _
      rw [first] at none
      exact absurd (by simp) none

/-- A text as long as the first part of another one begins with it. -/
theorem begins_of_length {p s c y : CString} (long : p.length ≤ s.length) (same : s ++ c = p ++ y) :
    ∃ s', s = p ++ s' ∧ y = s' ++ c := by
  rcases List.append_eq_append_iff.mp same with ⟨t, rfl, rfl⟩ | ⟨t, rfl, rfl⟩
  · have none : t = [] := by
      rw [List.length_append] at long
      exact List.eq_nil_of_length_eq_zero (by omega)
    subst none
    exact ⟨[], by simp, rfl⟩
  · exact ⟨t, rfl, rfl⟩

/-- A field that is read from its own place, or one that goes on to a later end tag. -/
theorem field_step (name : Name n) (read : Children s kids) (text : s ++ c = elementText n [] d₀ z)
    (long : n.length + 2 ≤ s.length) (field : fieldOf kids n = some d) (size : d₀.length ≤ d.length) :
    ∃ s' more, Children s' more ∧ (∀ m, n ≠ m → fieldOf kids m = fieldOf more m) ∧
      ((∃ ks, (childData ks).getD [] = d ∧ Children d₀ ks ∧ s' ++ c = z) ∨
        ∃ l e, z = l ++ '<' :: '/' :: (n ++ (e ++ '>' :: (s' ++ c)))) := by
  have shape : elementText n [] d₀ z = ('<' :: (n ++ ['>'])) ++ (d₀ ++ '<' :: '/' :: (n ++ '>' :: z)) := by
    simp [elementText, attributesText]
  rw [shape] at text
  have room : ('<' :: (n ++ ['>'])).length ≤ s.length := by
    rw [List.length_cons, List.length_append, List.length_singleton]
    exact long
  obtain ⟨s₀, rfl, tail⟩ := begins_of_length room text
  have opened : Children ('<' :: (n ++ (attributesText [] ++ '>' :: s₀))) kids := by
    simpa [attributesText] using read
  obtain ⟨as, inner, ks, e, s', more, rfl, rfl, inside, blank, rest⟩ := opened.opened_known name (by simp)
  rw [fieldOf_self] at field
  cases field
  refine ⟨s', more, rest, fun m other => fieldOf_other as ks more other, ?_⟩
  have room := (childData_le inside).1
  rw [List.append_assoc] at tail
  obtain ⟨t, rfl, later⟩ := begins_of_length (Nat.le_trans size room) tail.symm
  cases t with
  | nil =>
    simp only [List.cons_append, List.nil_append, List.append_assoc] at later
    injection later with _ later
    injection later with _ later
    have later := List.append_cancel_left later
    have close : ∀ x : CString, ∀ c ∈ ('>' :: x).head?, c ∉ blanks := by
      rintro x c ⟨⟩
      decide
    have nothing : ∀ c ∈ ([] : CString), c ∈ blanks := by decide
    obtain ⟨rfl, later⟩ := cut_unique (p := (· ∈ blanks)) nothing blank (close _) (close _) later
    injection later with _ later
    rw [List.append_nil] at inside
    exact .inl ⟨ks, rfl, inside, later.symm⟩
  | cons b t =>
    simp only [List.cons_append, List.append_assoc] at later
    injection later with _ later
    have mark : '<' ∉ '/' :: (n ++ ['>']) := by
      intro here
      rcases List.mem_cons.mp here with same | here
      · exact absurd same (by decide)
      rcases List.mem_append.mp here with here | here
      · exact absurd (name.chars _ here) (by decide)
      · exact absurd here (by decide)
    obtain ⟨l, _, tail⟩ := behind_of_not_mem (z := z) mark (by simpa using later)
    exact .inr ⟨l, e, tail⟩

/-- A later end tag leaves less room than the field in between takes. -/
theorem overrun_length {z' l t : CString} (name : Name m)
    (later : elementText m [] d₀ z = l ++ '<' :: '/' :: (n ++ (z' ++ '>' :: t))) :
    m.length + n.length + t.length + 5 ≤ (elementText m [] d₀ z).length := by
  have start : ∀ b x, '<' :: (m ++ b) ≠ '<' :: '/' :: x := by
    intro b x same
    injection same with _ same
    have first := name.head (z := b)
    rw [same] at first
    exact absurd (first '/' rfl) (by decide)
  have front : m.length + 2 ≤ l.length := by
    have shape : elementText m [] d₀ z = '<' :: ((m ++ ['>']) ++ (d₀ ++ '<' :: '/' :: (m ++ '>' :: z))) := by
      simp [elementText, attributesText]
    cases l with
    | nil => exact absurd later (start _ _)
    | cons b l =>
      rw [shape] at later
      injection later with _ later
      have mark : '<' ∉ m ++ ['>'] := by
        intro here
        rcases List.mem_append.mp here with here | here
        · exact absurd (name.chars _ here) (by decide)
        · exact absurd here (by decide)
      obtain ⟨l', rfl, _⟩ := behind_of_not_mem mark later
      simp only [List.length_cons, List.length_append, List.length_nil]
      omega
  rw [later]
  simp only [List.length_cons, List.length_append]
  omega

theorem length_elementText (n d z : CString) :
    (elementText n [] d z).length = 2 * n.length + d.length + z.length + 5 := by
  simp only [elementText, attributesText, List.flatMap_nil, List.nil_append, List.length_cons,
    List.length_append]
  omega

end Fields

section Login

def usernameTag : CString := cstr "username"

def resourceTag : CString := cstr "resource"

/-- The children of `query`, in front of `s`. -/
def loginFields (field user secret resource s : CString) : CString :=
  elementText usernameTag [] user (elementText field [] secret (elementText resourceTag [] resource s))

theorem loginText_shape (field : String) (id user : CString) (secret resource : Option CString) :
    loginText field id user secret resource =
      elementText (cstr "iq") [(cstr "type", cstr "set"), (cstr "id", id)]
        (elementText (cstr "query") [(cstr "xmlns", cstr "jabber:iq:auth")]
          (loginFields (cstr field) user (fmtS secret) (fmtS resource) []) []) [] := by
  simp [loginText, loginFields, usernameTag, resourceTag, elementText, attributesText, quoted, cstr,
    doubleQuote]

theorem loginFields_append (field user secret resource s : CString) :
    loginFields field user secret resource s = loginFields field user secret resource [] ++ s := by
  simp [loginFields, elementText]

theorem name_iq : Name (cstr "iq") := .of_ascii (by decide) (by decide)

theorem name_query : Name (cstr "query") := .of_ascii (by decide) (by decide)

theorem name_username : Name usernameTag := .of_ascii (by decide) (by decide)

theorem name_resource : Name resourceTag := .of_ascii (by decide) (by decide)

theorem names_iq (id : CString) : ∀ kv ∈ [(cstr "type", cstr "set"), (cstr "id", id)], Name kv.1 := by
  intro kv here
  rcases List.mem_cons.mp here with rfl | here
  · exact .of_ascii (by decide) (by decide)
  · rw [List.mem_singleton.mp here]
    exact Name.of_ascii (s := cstr "id") (by decide) (by decide)

theorem names_query : ∀ kv ∈ [(cstr "xmlns", cstr "jabber:iq:auth")], Name kv.1 := by
  intro kv here
  rw [List.mem_singleton.mp here]
  exact .of_ascii (by decide) (by decide)

theorem lineEnds_loginFields {field : CString} (name : Name field) (user secret resource : CString) :
    lineEnds (loginFields field user secret resource []) =
      loginFields field (lineEnds user) (lineEnds secret) (lineEnds resource) [] := by
  unfold loginFields
  rw [lineEnds_elementText name_username (by simp), lineEnds_elementText name (by simp),
    lineEnds_elementText name_resource (by simp)]
  rfl

/-- The children of `query` are read from a beginning of what was written there. -/
theorem query_opened {field : String} {id user : CString} {secret resource : Option CString} {x : XmlNode}
    (name : Name (cstr field)) (plain : doubleQuote ∉ id ∧ carriageReturn ∉ id)
    (read : ReadsAs (loginText field id user secret resource) x) : ∃ kids s c, 8 ≤ c.length ∧
      Children s kids ∧ s ++ c = loginFields (cstr field) (lineEnds user) (lineEnds (fmtS secret))
        (lineEnds (fmtS resource)) (cstr "</query>") ∧
      ∀ n, xmlnodeText (xmlnodeGetTag (some x) (cstr "query")) n = fieldOf kids n := by
  have set_lines : lineEnds (cstr "set") = cstr "set" := by decide
  have auth_lines : lineEnds (cstr "jabber:iq:auth") = cstr "jabber:iq:auth" := by decide
  unfold ReadsAs Reads at read
  rw [loginText_shape, lineEnds_elementText name_iq (names_iq id), lineEnds_elementText name_query names_query,
    lineEnds_loginFields name] at read
  simp only [List.map_cons, List.map_nil, set_lines, auth_lines, lineEnds_of_not_mem plain.2] at read
  have known : ∀ kv ∈ [(cstr "type", cstr "set"), (cstr "id", id)], Name kv.1 ∧ doubleQuote ∉ kv.2 := by
    intro kv here
    refine ⟨names_iq id kv here, ?_⟩
    rcases List.mem_cons.mp here with rfl | here
    · decide
    · rw [List.mem_singleton.mp here]
      exact plain.1
  have known' : ∀ kv ∈ [(cstr "xmlns", cstr "jabber:iq:auth")], Name kv.1 ∧ doubleQuote ∉ kv.2 := by
    intro kv here
    refine ⟨names_query kv here, ?_⟩
    rw [List.mem_singleton.mp here]
    decide
  obtain ⟨as, inner, ks, e, s, more, text, listed, inside, blank, rest⟩ := read.opened_known name_iq known
  injection listed with same ended
  subst same ended
  have whole := Content.closed (t := ['i']) (l := 'q') (by decide) rfl blank rest text
  subst whole
  obtain ⟨as', inner', ks', e', s', more', text', rfl, inside', _, _⟩ := inside.opened_known name_query known'
  refine ⟨ks', inner', '<' :: '/' :: (cstr "query" ++ (e' ++ '>' :: s')), ?_, inside', ?_, fun n => rfl⟩
  · have query : (cstr "query").length = 5 := rfl
    simp only [List.length_cons, List.length_append]
    omega
  · exact text'.symm.trans (loginFields_append _ _ _ _ (cstr "</query>")).symm

variable {s c f U₀ P₀ R₀ U P R : CString} {kids : List XmlNode}

/-- The user name is read from its own place: a later end tag would leave too little room
for the other two fields. -/
theorem username_read (name : Name f) (apart : usernameTag ≠ f ∧ f ≠ resourceTag ∧ 4 ≤ f.length)
    (read : Children s kids) (text : s ++ c = loginFields f U₀ P₀ R₀ (cstr "</query>")) (long : 8 ≤ c.length)
    (user : fieldOf kids usernameTag = some U) (secret : fieldOf kids f = some P)
    (resource : fieldOf kids resourceTag = some R) (userSize : U₀.length ≤ U.length)
    (secretSize : P₀.length ≤ P.length)
    (room : R₀.length ≤ R.length ∨ R₀.length ≤ R.length + 6 ∧ (P ≠ [] ∨
      ¬ '<' :: '/' :: usernameTag <:+: elementText f [] P₀ (elementText resourceTag [] R₀ (cstr "</query>")))) :
    (∃ ks, Children U₀ ks ∧ (childData ks).getD [] = U) ∧ ∃ s' more, Children s' more ∧
      s' ++ c = elementText f [] P₀ (elementText resourceTag [] R₀ (cstr "</query>")) ∧
        fieldOf more f = some P ∧ fieldOf more resourceTag = some R := by
  have usernameLength : usernameTag.length = 8 := rfl
  have resourceLength : resourceTag.length = 8 := rfl
  have cost := fieldOf_cost read user
  have least := fieldCost_nil_le usernameTag U
  obtain ⟨s', more, rest, others, ⟨ks, data, inside, tail⟩ | ⟨l, e, tail⟩⟩ :=
    field_step name_username read text (by omega) user userSize
  · refine ⟨⟨ks, inside, data⟩, s', more, rest, tail, ?_, ?_⟩
    · rw [← others f apart.1, secret]
    · rw [← others resourceTag (by decide), resource]
  · exfalso
    rw [others f apart.1] at secret
    rw [others resourceTag (by decide)] at resource
    have costs := fieldOf_costs rest apart.2.1 secret resource
    have least' := fieldCost_nil_le resourceTag R
    have whole := overrun_length name tail
    have last : (cstr "</query>").length = 8 := rfl
    rw [length_elementText, length_elementText, List.length_append, last] at whole
    have resourceCost : R.length + 11 ≤ fieldCost resourceTag R := by
      unfold fieldCost
      split
      · rename_i none
        rw [none]
        exact Nat.le_of_eq rfl
      · omega
    have secretCost : P.length + f.length + 3 ≤ fieldCost f P := by
      unfold fieldCost
      split
      · rename_i none
        rw [none, List.length_nil]
        omega
      · omega
    rcases room with fits | ⟨fits, some | none⟩
    · omega
    · have secretCost : P.length + 2 * f.length + 5 ≤ fieldCost f P := by
        rw [fieldCost, if_neg some]
      omega
    · refine none ⟨l, e ++ '>' :: (s' ++ c), ?_⟩
      rw [tail]
      simp

theorem secret_read (name : Name f) (apart : usernameTag ≠ f ∧ f ≠ resourceTag ∧ 4 ≤ f.length)
    (read : Children s kids) (long : 8 ≤ c.length)
    (text : s ++ c = elementText f [] P₀ (elementText resourceTag [] R₀ (cstr "</query>")))
    (secret : fieldOf kids f = some P) (resource : fieldOf kids resourceTag = some R)
    (secretSize : P₀.length ≤ P.length) (room : R₀.length ≤ R.length + 6) :
    (∃ ks, Children P₀ ks ∧ (childData ks).getD [] = P) ∧ ∃ s' more, Children s' more ∧
      s' ++ c = elementText resourceTag [] R₀ (cstr "</query>") ∧ fieldOf more resourceTag = some R := by
  have resourceLength : resourceTag.length = 8 := rfl
  have cost := fieldOf_cost read secret
  have least := fieldCost_nil_le f P
  obtain ⟨s', more, rest, others, ⟨ks, data, inside, tail⟩ | ⟨l, e, tail⟩⟩ :=
    field_step name read text (by omega) secret secretSize
  · refine ⟨⟨ks, inside, data⟩, s', more, rest, tail, ?_⟩
    rw [← others resourceTag apart.2.1, resource]
  · exfalso
    rw [others resourceTag apart.2.1] at resource
    have cost := fieldOf_cost rest resource
    have whole := overrun_length name_resource tail
    have last : (cstr "</query>").length = 8 := rfl
    rw [length_elementText, List.length_append, last] at whole
    have resourceCost : R.length + 11 ≤ fieldCost resourceTag R := by
      unfold fieldCost
      split
      · rename_i none
        rw [none]
        exact Nat.le_of_eq rfl
      · omega
    omega

theorem resource_read (read : Children s kids) (long : 8 ≤ c.length)
    (text : s ++ c = elementText resourceTag [] R₀ (cstr "</query>"))
    (resource : fieldOf kids resourceTag = some R) (size : R₀.length ≤ R.length) :
    ∃ ks, Children R₀ ks ∧ (childData ks).getD [] = R := by
  have resourceLength : resourceTag.length = 8 := rfl
  have cost := fieldOf_cost read resource
  have least := fieldCost_nil_le resourceTag R
  obtain ⟨s', more, rest, others, ⟨ks, data, inside, tail⟩ | ⟨l, e, tail⟩⟩ :=
    field_step name_resource read text (by omega) resource size
  · exact ⟨ks, inside, data⟩
  · have whole := congrArg List.length tail
    have last : (cstr "</query>").length = 8 := rfl
    simp only [last, List.length_append, List.length_cons] at whole
    omega

/-- A text that does not begin with markup says something. -/
theorem childData_of_plain {b : Char} (plain : b ∉ ['<', '&']) (read : Children (b :: s) kids) :
    (childData kids).getD [] ≠ [] := by
  generalize whole : b :: s = text at read
  have angle : ∀ x : CString, b :: s ≠ '<' :: x := by
    intro x same
    injection same with first _
    rw [first] at plain
    exact absurd plain (by decide)
  cases read with
  | nil => cases whole
  | @char c' s' kids legal plain' closed rest =>
    obtain ⟨b', u, bytes, _⟩ := utf8_cons c'
    rw [childData_cdata, leadingData, bytes]
    exact List.cons_ne_nil _ _
  | reference reference rest =>
    obtain ⟨u, begins⟩ := reference.begins
    rw [begins] at whole
    injection whole with first _
    rw [first] at plain
    exact absurd plain (by decide)
  | literal encoded closed rest => exact absurd whole (angle _)
  | comment encoded closed rest => exact absurd whole (angle _)
  | instruction name reserved apart encoded closed rest => exact absurd whole (angle _)
  | empty name attributes unique blank rest => exact absurd whole (angle _)
  | element name attributes unique blank inside blank' rest => exact absurd whole (angle _)

/-- A missing resource is written as one. -/
theorem resource_null (read : Children s kids)
    (text : s ++ c = elementText resourceTag [] (cstr "(null)") (cstr "</query>"))
    (resource : fieldOf kids resourceTag = some []) : False := by
  have cost := fieldOf_cost read resource
  have least := fieldCost_nil_le resourceTag []
  have resourceLength : resourceTag.length = 8 := rfl
  have shape : elementText resourceTag [] (cstr "(null)") (cstr "</query>") =
      cstr "<resource>" ++ (cstr "(null)" ++ '<' :: cstr "/resource></query>") := by decide
  rw [shape] at text
  obtain ⟨s₀, rfl, tail⟩ := begins_of_length (p := cstr "<resource>") (by
    have length : (cstr "<resource>").length = 10 := rfl
    omega) text
  have opened : Children ('<' :: (resourceTag ++ (attributesText [] ++ '>' :: s₀))) kids := read
  obtain ⟨as, inner, ks, e, s', more, rfl, rfl, inside, blank, rest⟩ := opened.opened_known name_resource (by simp)
  rw [List.append_assoc] at tail
  obtain ⟨t, rfl, later⟩ := behind_of_not_mem (by decide) tail
  rw [fieldOf_self] at resource
  injection resource with none
  exact childData_of_plain (by decide) inside none

/-- A field that is read from its own text is text that stands for itself. -/
theorem field_stands_iff (s : CString) :
    (∃ ks, Children (lineEnds s) ks ∧ (childData ks).getD [] = s) ↔ StandsInText s := by
  constructor
  · rintro ⟨ks, read, data⟩
    have long := length_lineEnds s
    rw [← data] at long
    have same := (childData_le read).2 (by rwa [data] at long ⊢)
    exact leading.stands read (same.symm.trans data)
  · intro stands
    have same : lineEnds s = s := lineEnds_of_not_mem fun here => stands.plain _ here (by decide)
    obtain ⟨pieces, whole, read⟩ := stands.content
    refine ⟨pieces.map .cdata, same.symm ▸ read, ?_⟩
    rw [← whole]
    clear whole read
    cases pieces with
    | nil => rfl
    | cons d pieces =>
      rw [List.map_cons, childData_cdata]
      change leadingData ((d :: pieces).map .cdata) = _
      induction d :: pieces with
      | nil => rfl
      | cons d pieces ih =>
        rw [List.map_cons, leadingData, ih]
        rfl

section Template

variable {field : String} {id user : CString} {secret resource : Option CString}

theorem login_read (name : Name (cstr field))
    (apart : usernameTag ≠ cstr field ∧ cstr field ≠ resourceTag ∧ 4 ≤ (cstr field).length)
    (plain : StandsInValue id) (secretSize : (lineEnds (fmtS secret)).length ≤ P.length)
    (lone : P ≠ [] ∨ ¬ '<' :: '/' :: usernameTag <:+:
      elementText (cstr field) [] [] (elementText resourceTag [] (cstr "(null)") (cstr "</query>")))
    {x : XmlNode} (stanza : ReadsAs (loginText field id user secret resource) x)
    (logs : LogsIn field user P (resource.getD []) x) :
    StandsInText user ∧ (∃ ks, Children (lineEnds (fmtS secret)) ks ∧ (childData ks).getD [] = P) ∧
      ∃ r, resource = some r ∧ StandsInText r := by
  have quotes : doubleQuote ∉ id ∧ carriageReturn ∉ id :=
    ⟨fun here => plain.plain _ here (by decide), fun here => plain.plain _ here (by decide)⟩
  obtain ⟨kids, s, c, long, read, text, fields⟩ := query_opened name quotes stanza
  have userField := (fields usernameTag).symm.trans logs.user
  have secretField := (fields (cstr field)).symm.trans logs.secret
  have resourceField := (fields resourceTag).symm.trans logs.resource
  clear fields logs stanza
  cases resource with
  | none =>
    have null : lineEnds (fmtS none) = cstr "(null)" := by decide
    rw [null] at text
    have lonely : P ≠ [] ∨ ¬ '<' :: '/' :: usernameTag <:+: elementText (cstr field) []
        (lineEnds (fmtS secret)) (elementText resourceTag [] (cstr "(null)") (cstr "</query>")) := by
      by_cases none : P = []
      · rw [none] at secretSize
        rw [List.eq_nil_of_length_eq_zero (Nat.le_zero.mp secretSize)]
        exact lone
      · exact .inl none
    have size : (cstr "(null)").length ≤ ([] : CString).length + 6 := by decide
    obtain ⟨_, s', more, read', text', secret', resource'⟩ := username_read name apart read text long userField
      secretField resourceField (length_lineEnds user) secretSize (.inr ⟨size, lonely⟩)
    obtain ⟨_, s'', more', read'', text'', resource''⟩ := secret_read name apart read' long text' secret'
      resource' secretSize size
    exact (resource_null read'' text'' resource'').elim
  | some r =>
    have size : (lineEnds (fmtS (some r))).length ≤ ((some r).getD []).length := length_lineEnds r
    obtain ⟨userRead, s', more, read', text', secret', resource'⟩ := username_read name apart read text long
      userField secretField resourceField (length_lineEnds user) secretSize (.inl size)
    obtain ⟨secretRead, s'', more', read'', text'', resource''⟩ := secret_read name apart read' long text'
      secret' resource' secretSize (Nat.le_add_right_of_le size)
    have resourceRead := resource_read read'' long text'' resource'' size
    exact ⟨(field_stands_iff user).mp userRead, secretRead, r, rfl, (field_stands_iff r).mp resourceRead⟩

/-- The stanza that the template is meant for. -/
def loginStanza (field id : CString) (userKids secretKids resourceKids : List XmlNode) : XmlNode :=
  .tag (cstr "iq") [(cstr "type", cstr "set"), (cstr "id", id)]
    [.tag (cstr "query") [(cstr "xmlns", cstr "jabber:iq:auth")]
      [.tag usernameTag [] userKids, .tag field [] secretKids, .tag resourceTag [] resourceKids]]

theorem loginStanza_read {r : CString} {userKids secretKids resourceKids : List XmlNode}
    (name : Name (cstr field)) (plain : StandsInValue id) (userRead : Children (lineEnds user) userKids)
    (secretRead : Children (lineEnds (fmtS secret)) secretKids)
    (resourceRead : Children (lineEnds r) resourceKids) :
    ReadsAs (loginText field id user secret (some r))
      (loginStanza (cstr field) id userKids secretKids resourceKids) := by
  have set_lines : lineEnds (cstr "set") = cstr "set" := by decide
  have auth_lines : lineEnds (cstr "jabber:iq:auth") = cstr "jabber:iq:auth" := by decide
  have id_lines : lineEnds id = id := lineEnds_of_not_mem fun here => plain.plain _ here (by decide)
  have set_stands : StandsInValue (cstr "set") := ⟨encoded_of_ascii (by decide), by decide⟩
  have auth_stands : StandsInValue (cstr "jabber:iq:auth") := ⟨encoded_of_ascii (by decide), by decide⟩
  have iq_stands : ∀ kv ∈ [(cstr "type", cstr "set"), (cstr "id", id)], Name kv.1 ∧ StandsInValue kv.2 := by
    intro kv here
    refine ⟨names_iq id kv here, ?_⟩
    rcases List.mem_cons.mp here with rfl | here
    · exact set_stands
    · rw [List.mem_singleton.mp here]
      exact plain
  have query_stands : ∀ kv ∈ [(cstr "xmlns", cstr "jabber:iq:auth")], Name kv.1 ∧ StandsInValue kv.2 := by
    intro kv here
    refine ⟨names_query kv here, ?_⟩
    rw [List.mem_singleton.mp here]
    exact auth_stands
  unfold ReadsAs Reads
  rw [loginText_shape, lineEnds_elementText name_iq (names_iq id), lineEnds_elementText name_query names_query,
    lineEnds_loginFields name]
  simp only [List.map_cons, List.map_nil, set_lines, auth_lines, id_lines]
  have iq_unique : [cstr "type", cstr "id"].Nodup := by decide
  apply Content.element_plain name_iq iq_stands iq_unique _ .nil
  apply Content.element_plain name_query query_stands (by decide) _ .nil
  apply Content.element_plain name_username (by simp) (by simp) userRead
  apply Content.element_plain name (by simp) (by simp) secretRead
  exact Content.element_plain name_resource (by simp) (by simp) resourceRead .nil

/-- Exactly then the template is read as a stanza with the fields. -/
theorem login_read_iff (user : CString) (secret resource : Option CString) (name : Name (cstr field))
    (apart : usernameTag ≠ cstr field ∧ cstr field ≠ resourceTag ∧ 4 ≤ (cstr field).length)
    (plain : StandsInValue id) (secretSize : (lineEnds (fmtS secret)).length ≤ P.length)
    (lone : P ≠ [] ∨ ¬ '<' :: '/' :: usernameTag <:+:
      elementText (cstr field) [] [] (elementText resourceTag [] (cstr "(null)") (cstr "</query>"))) :
    (∃ x, ReadsAs (loginText field id user secret resource) x ∧ LogsIn field user P (resource.getD []) x) ↔
      StandsInText user ∧ (∃ ks, Children (lineEnds (fmtS secret)) ks ∧ (childData ks).getD [] = P) ∧
        ∃ r, resource = some r ∧ StandsInText r := by
  constructor
  · rintro ⟨x, read, logs⟩
    exact login_read name apart plain secretSize lone read logs
  · rintro ⟨userStands, ⟨secretKids, secretRead, secretData⟩, r, rfl, resourceStands⟩
    obtain ⟨userKids, userRead, userData⟩ := (field_stands_iff user).mpr userStands
    obtain ⟨resourceKids, resourceRead, resourceData⟩ := (field_stands_iff r).mpr resourceStands
    refine ⟨_, loginStanza_read name plain userRead secretRead resourceRead, ?_, ?_, ?_⟩
    · change fieldOf (.tag usernameTag [] userKids :: _) usernameTag = _
      rw [fieldOf_self, userData]
    · change fieldOf (.tag usernameTag [] userKids :: .tag (cstr field) [] secretKids :: _) (cstr field) = _
      rw [fieldOf_other _ _ _ apart.1, fieldOf_self, secretData]
    · change fieldOf (.tag usernameTag [] userKids :: .tag (cstr field) [] secretKids ::
        .tag resourceTag [] resourceKids :: _) resourceTag = _
      rw [fieldOf_other _ _ _ (by decide), fieldOf_other _ _ _ apart.2.1, fieldOf_self, resourceData]
      rfl

end Template

end Login

section Messages

variable {jidFull msg : CString}

theorem messageText_shape (jidFull msg : CString) : messageText jidFull msg =
    elementText (cstr "message") [(cstr "to", jidFull)] (elementText (cstr "body") [] msg []) [] := by
  simp [messageText, elementText, attributesText, cstr, doubleQuote]

theorem name_message : Name (cstr "message") := .of_ascii (by decide) (by decide)

theorem name_to : Name (cstr "to") := .of_ascii (by decide) (by decide)

theorem name_body : Name (cstr "body") := .of_ascii (by decide) (by decide)

theorem names_message (jidFull : CString) : ∀ kv ∈ [(cstr "to", jidFull)], Name kv.1 := by
  intro kv here
  rw [List.mem_singleton.mp here]
  exact name_to

theorem lineEnds_messageText (jidFull msg : CString) : lineEnds (messageText jidFull msg) =
    messageText (lineEnds jidFull) (lineEnds msg) := by
  rw [messageText_shape, messageText_shape, lineEnds_elementText name_message (names_message _),
    lineEnds_elementText name_body (by simp)]
  rfl

/-- The value of the attribute ends at the first quote. -/
theorem address_read {a b y t : CString} {as : List (CString × CString)} (read : Attributes a as)
    (blank : ∀ c ∈ b, c ∈ blanks) (ends : ∀ c ∈ y.head?, c = '>' ∨ c = '/')
    (text : a ++ (b ++ y) = attributesText [(cstr "to", lineEnds jidFull)] ++ '>' :: t)
    (address : (as.find? fun a => a.1 = cstr "to").map Prod.snd = some jidFull) :
    StandsInValue jidFull ∧ y = '>' :: t := by
  rw [attributesText_cons] at text
  obtain ⟨v, value, rest, as', rfl, inside, others, tail⟩ := read.first blank ends name_to text
  rw [List.find?_cons_of_pos (by simp)] at address
  injection address with same
  change value = jidFull at same
  subst same
  obtain ⟨t', rfl, later⟩ := begins_of_length (Nat.le_trans (length_lineEnds value) inside.length_le) tail.symm
  cases t' with
  | nil =>
    injection later with _ later
    rw [List.append_nil] at inside
    exact ⟨inside.stands, (others.last blank later.symm).2⟩
  | cons q t' =>
    injection later with first _
    have none := inside.quote_not_mem
    rw [← first] at none
    exact absurd (by simp) none

theorem message_read {x : XmlNode} (stanza : ReadsAs (messageText jidFull msg) x) (tells : Tells jidFull msg x) :
    StandsInValue jidFull ∧ StandsInText msg := by
  unfold ReadsAs Reads at stanza
  rw [lineEnds_messageText, messageText_shape] at stanza
  have head : ∀ x : CString, ∀ c ∈ (attributesText [(cstr "to", lineEnds jidFull)] ++ x).head?, ¬NameChar c := by
    intro x
    rw [attributesText_cons]
    rintro c ⟨⟩
    decide
  obtain ⟨a, as, b, y, ks, more, attributes, blank, text, listed, behind⟩ := stanza.opened name_message (head _)
  injection listed with same ended
  subst same ended
  obtain ⟨address, ended⟩ := address_read attributes blank behind.ends text.symm tells.address
  refine ⟨address, ?_⟩
  cases behind with
  | empty _ => cases ended
  | @element inner _ e s _ inside blank' rest =>
    injection ended with _ ended
    have whole := Content.closed (t := cstr "messag") (l := 'e') (by decide) rfl blank' rest ended.symm
    subst whole
    have body : fieldOf ks (cstr "body") = some msg := tells.body
    have long : (cstr "body").length + 2 ≤ (elementText (cstr "body") [] (lineEnds msg) []).length := by
      rw [length_elementText]
      omega
    obtain ⟨s', more, rest', others, ⟨ks', data, read, _⟩ | ⟨l, e', tail⟩⟩ := field_step (c := []) name_body
      inside (List.append_nil _) long body (length_lineEnds msg)
    · exact (field_stands_iff msg).mp ⟨ks', read, data⟩
    · have empty := congrArg List.length tail
      simp only [List.length_nil, List.length_append, List.length_cons] at empty
      omega

/-- Exactly then a message is read as one to its recipient and with its text. -/
theorem message_read_iff : (∃ x, ReadsAs (messageText jidFull msg) x ∧ Tells jidFull msg x) ↔
    StandsInValue jidFull ∧ StandsInText msg := by
  constructor
  · rintro ⟨x, read, tells⟩
    exact message_read read tells
  · rintro ⟨address, stands⟩
    obtain ⟨kids, read, data⟩ := (field_stands_iff msg).mpr stands
    have same : lineEnds jidFull = jidFull := lineEnds_of_not_mem fun here => address.plain _ here (by decide)
    refine ⟨.tag (cstr "message") [(cstr "to", jidFull)] [.tag (cstr "body") [] kids], ?_, rfl, ?_⟩
    · unfold ReadsAs Reads
      rw [lineEnds_messageText, messageText_shape, same]
      have plain : ∀ kv ∈ [(cstr "to", jidFull)], Name kv.1 ∧ StandsInValue kv.2 := by
        intro kv here
        rw [List.mem_singleton.mp here]
        exact ⟨name_to, address⟩
      apply Content.element_plain name_message plain (List.nodup_singleton _) _ .nil
      exact Content.element_plain name_body (by simp) (by simp) read .nil
    · change fieldOf [.tag (cstr "body") [] kids] (cstr "body") = _
      rw [fieldOf_self, data]

end Messages

section Buffers

variable {text jidFull msg : CString}

theorem loginPlainBuf_iff : (∃ b, loginPlainBuf text = some b ∧ Holds b text) ↔ text.length < 1000 := by
  constructor
  · rintro ⟨b, made, holds⟩
    cases made
    have room := holds.room
    rw [size_snprintfInto] at room
    change (text.length : Int) < 1000 at room
    omega
  · intro fits
    refine ⟨_, rfl, ?_⟩
    rw [snprintfInto_whole (by omega)]
    exact holds_new (by omega)

theorem loginDigestBuf_iff : (∃ b, loginDigestBuf text = some b ∧ Holds b text) ↔ text.length < 1000 := by
  constructor
  · rintro ⟨b, made, holds⟩
    cases made
    have room := holds.room
    rw [Block.size_puts] at room
    change (text.length : Int) < 1000 at room
    omega
  · intro fits
    exact ⟨_, rfl, holds_new (by omega)⟩

theorem length_messageText (jidFull msg : CString) :
    (messageText jidFull msg).length = jidFull.length + msg.length + 38 := by
  simp only [messageText, List.length_append]
  have front : (cstr "<message to=\"").length = 13 := rfl
  have middle : (cstr "\"><body>").length = 8 := rfl
  have back : (cstr "</body></message>").length = 17 := rfl
  omega

theorem sendMessageBuf_iff : (∃ b, sendMessageBuf jidFull msg = some b ∧ Holds b (messageText jidFull msg)) ↔
    jidFull.length + msg.length + 500 < 2 ^ 31 := by
  constructor
  · rintro ⟨b, made, holds⟩
    rw [sendMessageBuf, Option.map_eq_some_iff] at made
    obtain ⟨ret, given, rfl⟩ := made
    have room := holds.room
    rw [Block.size_puts, size_of_pmalloc given, length_messageText] at room
    have small := asInt_lt (msg.length + jidFull.length + 500)
    unfold asInt at room small
    rw [Int.bmod_def] at room small
    split at room <;> omega
  · intro small
    have size : asInt (msg.length + jidFull.length + 500) = msg.length + jidFull.length + 500 :=
      asInt_of_small (by omega) (by omega)
    have fits : ((messageText jidFull msg).length : Int) < msg.length + jidFull.length + 500 := by
      rw [length_messageText]
      omega
    refine ⟨_, ?_, holds_new fits⟩
    rw [sendMessageBuf, size, pmalloc_room (by omega), Option.map_some]

end Buffers

section Queues

variable {w w' : World} {u : UserPtr} {now ret : Int}

theorem userDoLogin_owner {text : World → CString → UserProperities → CString}
    (ran : userDoLogin text u now w = .ok ret w') : ∃ c, (w.users u).conn = some c := by
  cases owner : (w.users u).conn with
  | some c => exact ⟨c, rfl⟩
  | none =>
    have drawn : ((w.drawId u).users u).conn = none := (drawId_conn w u).trans owner
    have noted : noteRequest u (w.users u).tmpid true (w.drawId u) = .ok ⟨⟩ (w.drawId u) := by
      simp only [noteRequest, emitOnConn, modify_apply, drawn]
    have dropped : ∀ text, jpolldConnWriteStr none text true (w.drawId u) = .ok (-1) (w.drawId u) := fun _ => rfl
    simp only [userDoLogin, bind_apply, getUser_apply, makeJcomId_apply, noted, get_apply, drawn, dropped,
      userStoreXmlInfo, derefConn] at ran
    cases ran

theorem texts_queueLogin (w : World) (u : UserPtr) (c : ConnPtr) (packet : CString) (now : Int) :
    (w.queueLogin u c packet now).texts = packet :: w.texts := by
  have begun : (w.loginBegun u c).texts = w.texts := by
    rw [World.loginBegun, World.requestNoted, texts_emit, World.drawId, texts_emit]
    rfl
  have stored : ∀ (v : World) (e : XmlNeedResponse), (v.storeXmlInfo c e).texts = v.texts := by
    intro v e
    rw [World.storeXmlInfo, texts_emit]
    exact texts_touch v c
  rw [World.queueLogin, texts_emit]
  change (World.storeXmlInfo _ c _).texts = _
  rw [stored, texts_acceptPacket, begun]

/-- One text is queued, made of the fields of the user and the next identifier. -/
theorem userDoLogin_texts {text : World → CString → UserProperities → CString}
    (ran : userDoLogin text u now w = .ok ret w') : ∃ w₁, w₁.sha = w.sha ∧
      w'.texts = text w₁ (jcomId idBufSize (w.users u).tmpid)
        { w.users u with tmpid := (w.users u).tmpid + 1 } :: w.texts := by
  obtain ⟨c, owner⟩ := userDoLogin_owner ran
  rw [userDoLogin_apply now text owner] at ran
  cases ran
  refine ⟨w.loginBegun u c, rfl, ?_⟩
  have user : (w.loginBegun u c).users u = { w.users u with tmpid := (w.users u).tmpid + 1 } := by
    rw [World.loginBegun, requestNoted_users, World.drawId, users_emit, updUser_users_self]
  rw [texts_queueLogin, user]

/-- What `shahash` gives for a text that is not empty. -/
def IsDigest (s : CString) : Prop := s.length = 40 ∧ ∀ c ∈ s, c ∈ cstr "0123456789abcdef"

def loginPlainText (w : World) (u : UserPtr) : CString :=
  loginText "password" (jcomId idBufSize (w.users u).tmpid) (w.users u).idUser (some (w.users u).passwd)
    (w.users u).idResource

/-- What the digest is taken of. -/
def digestSource (w : World) (u : UserPtr) : CString := (w.users u).sid.getD [] ++ (w.users u).passwd

def loginDigestText (w : World) (u : UserPtr) : CString :=
  loginText "digest" (jcomId idBufSize (w.users u).tmpid) (w.users u).idUser
    (if digestSource w u = [] then none else some (w.sha (digestSource w u))) (w.users u).idResource

theorem standsInValue_jcomId (n : Nat) : StandsInValue (jcomId idBufSize n) := by
  have front : ∀ c ∈ cstr "JCOM_", (32 ≤ c.toNat ∧ c.toNat < 128) ∧
      c ∉ ['<', '&', doubleQuote, tab, lineFeed, carriageReturn] := by decide
  have others : ∀ c ∈ ['<', '&', doubleQuote, tab, lineFeed, carriageReturn],
      ¬(48 ≤ c.toNat ∧ c.toNat ≤ 57) := by decide
  have all : ∀ c ∈ jcomId idBufSize n, (32 ≤ c.toNat ∧ c.toNat < 128) ∧
      c ∉ ['<', '&', doubleQuote, tab, lineFeed, carriageReturn] := by
    intro c here
    rcases mem_jcomId here with here | digit
    · exact front c here
    · have bounds : 48 ≤ c.toNat ∧ c.toNat ≤ 57 := by
        simpa [Char.isDigit, UInt32.le_iff_toNat_le] using digit
      exact ⟨by omega, fun mark => others c mark bounds⟩
  exact ⟨encoded_of_ascii fun c here => (all c here).1, fun c here => (all c here).2⟩

theorem length_loginPlainText (w : World) (u : UserPtr) : (loginPlainText w u).length =
    (jcomId idBufSize (w.users u).tmpid).length + (w.users u).idUser.length + (w.users u).passwd.length +
      (fmtS (w.users u).idResource).length + 127 := by
  have user : usernameTag.length = 8 := rfl
  have resource : resourceTag.length = 8 := rfl
  rw [loginPlainText, loginText_shape]
  simp [elementText, attributesText, loginFields, cstr, fmtS, user, resource]
  omega

theorem length_loginDigestText (w : World) (u : UserPtr) : (loginDigestText w u).length =
    (jcomId idBufSize (w.users u).tmpid).length + (w.users u).idUser.length +
      (fmtS (if digestSource w u = [] then none else some (w.sha (digestSource w u)))).length +
      (fmtS (w.users u).idResource).length + 123 := by
  have user : usernameTag.length = 8 := rfl
  have resource : resourceTag.length = 8 := rfl
  rw [loginDigestText, loginText_shape]
  simp [elementText, attributesText, loginFields, cstr, user, resource]
  omega

end Queues

section HandWritten

variable {w w' : World} {u : UserPtr} {now ret : Int}

theorem loginPlain_iff (ran : userDoLoginPlain u now w = .ok ret w') :
    HandWritten w w' (loginPlainBuf (loginPlainText w u)) (loginPlainText w u)
        (LogsIn "password" (w.users u).idUser (w.users u).passwd ((w.users u).idResource.getD [])) ↔
      StandsInText (w.users u).idUser ∧ StandsInText (w.users u).passwd ∧
        ∃ r, (w.users u).idResource = some r ∧ StandsInText r ∧
          (jcomId idBufSize (w.users u).tmpid).length + (w.users u).idUser.length +
            (w.users u).passwd.length + r.length + 127 < 1000 := by
  obtain ⟨w₁, _, texts⟩ := userDoLogin_texts ran
  have length := length_loginPlainText w u
  have name : Name (cstr "password") := .of_ascii (by decide) (by decide)
  have iff := login_read_iff (w.users u).idUser (some (w.users u).passwd) (w.users u).idResource
    (P := (w.users u).passwd) name (by decide) (standsInValue_jcomId (w.users u).tmpid)
    (length_lineEnds _) (.inr (by decide))
  constructor
  · rintro ⟨fits, _, read⟩
    obtain ⟨user, secret, r, given, resource⟩ := iff.mp read
    have small := loginPlainBuf_iff.mp fits
    rw [length, given] at small
    exact ⟨user, (field_stands_iff _).mp secret, r, given, resource, small⟩
  · rintro ⟨user, secret, r, given, resource, small⟩
    rw [given] at length
    change _ = _ + r.length + 127 at length
    refine ⟨loginPlainBuf_iff.mpr (by omega), ?_, iff.mpr ⟨user, (field_stands_iff _).mpr secret, r, given, resource⟩⟩
    rw [texts]
    change apSnprintf 1000 (loginPlainText w u) :: w.texts = _
    rw [apSnprintf_of_le (by omega)]

theorem standsInText_digest {s : CString} (digest : IsDigest s) : StandsInText s := by
  have ascii : ∀ c ∈ cstr "0123456789abcdef", (32 ≤ c.toNat ∧ c.toNat < 128) ∧
      c ∉ ['<', '&', carriageReturn] ∧ c ≠ ']' := by decide
  refine ⟨encoded_of_ascii fun c here => (ascii c (digest.2 c here)).1,
    fun c here => (ascii c (digest.2 c here)).2.1, fun inside => ?_⟩
  have bracket : ']' ∈ s := inside.subset (by decide)
  exact (ascii _ (digest.2 _ bracket)).2.2 rfl

/-- There is no digest of nothing: `NULL` is written. -/
theorem loginDigest_iff (ran : userDoLoginDigest u now w = .ok ret w') (digests : ∀ s, IsDigest (w.sha s)) :
    HandWritten w w' (loginDigestBuf (loginDigestText w u)) (loginDigestText w u)
        (LogsIn "digest" (w.users u).idUser (w.sha (digestSource w u)) ((w.users u).idResource.getD [])) ↔
      digestSource w u ≠ [] ∧ StandsInText (w.users u).idUser ∧
        ∃ r, (w.users u).idResource = some r ∧ StandsInText r ∧
          (jcomId idBufSize (w.users u).tmpid).length + (w.users u).idUser.length + 40 + r.length + 123 < 1000 := by
  obtain ⟨w₁, sha, texts⟩ := userDoLogin_texts ran
  have length := length_loginDigestText w u
  have digest := digests (digestSource w u)
  have name : Name (cstr "digest") := .of_ascii (by decide) (by decide)
  have lines : lineEnds (w.sha (digestSource w u)) = w.sha (digestSource w u) :=
    lineEnds_of_not_mem fun here => (standsInText_digest digest).plain _ here (by decide)
  have size : (lineEnds (fmtS (if digestSource w u = [] then none else some (w.sha (digestSource w u))))).length ≤
      (w.sha (digestSource w u)).length := by
    rw [digest.1]
    split
    · decide
    · change (lineEnds (w.sha (digestSource w u))).length ≤ 40
      rw [lines, digest.1]
  have nonempty : w.sha (digestSource w u) ≠ [] := by
    intro none
    have long := digest.1
    rw [none] at long
    cases long
  have iff := login_read_iff (w.users u).idUser
    (if digestSource w u = [] then none else some (w.sha (digestSource w u))) (w.users u).idResource
    (P := w.sha (digestSource w u)) name (by decide) (standsInValue_jcomId (w.users u).tmpid) size
    (.inl nonempty)
  constructor
  · rintro ⟨fits, _, read⟩
    obtain ⟨user, ⟨ks, secret, data⟩, r, given, resource⟩ := iff.mp read
    have source : digestSource w u ≠ [] := by
      intro none
      rw [if_pos none] at secret
      have short := (childData_le secret).1
      rw [data, digest.1] at short
      exact absurd short (by decide)
    have small := loginDigestBuf_iff.mp fits
    rw [length, if_neg source, given] at small
    change _ + (w.sha (digestSource w u)).length + r.length + 123 < 1000 at small
    rw [digest.1] at small
    exact ⟨source, user, r, given, resource, small⟩
  · rintro ⟨source, user, r, given, resource, small⟩
    rw [if_neg source, given] at length
    change _ = _ + (w.sha (digestSource w u)).length + r.length + 123 at length
    rw [digest.1] at length
    refine ⟨loginDigestBuf_iff.mpr (by omega), ?_, iff.mpr ⟨user, ?_, r, given, resource⟩⟩
    · rw [texts]
      rw [sha]
      rfl
    · rw [if_neg source]
      exact (field_stands_iff _).mpr (standsInText_digest digest)

theorem sendMessage_iff {jidFull msg : CString} (ran : userDoSendMessage u jidFull (some msg) w = .ok ret w')
    (takes : w.Takes u) :
    HandWritten w w' (sendMessageBuf jidFull msg) (messageText jidFull msg) (Tells jidFull msg) ↔
      StandsInValue jidFull ∧ StandsInText msg ∧ jidFull.length + msg.length + 500 < 2 ^ 31 := by
  obtain ⟨ret', w'', ran', _, texts, _⟩ := userDoSendMessage_spec u jidFull (some msg) w
  rw [ran] at ran'
  cases ran'
  simp only [if_pos takes] at texts
  constructor
  · rintro ⟨fits, _, read⟩
    obtain ⟨address, body⟩ := message_read_iff.mp read
    exact ⟨address, body, sendMessageBuf_iff.mp fits⟩
  · rintro ⟨address, body, small⟩
    exact ⟨sendMessageBuf_iff.mpr small, texts, message_read_iff.mpr ⟨address, body⟩⟩

/-- Exactly then the hand-written stanzas carry their fields. -/
theorem handWritten_iff (w w' : World) (u : UserPtr) (now ret : Int) :
    (userDoLoginPlain u now w = .ok ret w' →
      (HandWritten w w' (loginPlainBuf (loginPlainText w u)) (loginPlainText w u)
          (LogsIn "password" (w.users u).idUser (w.users u).passwd ((w.users u).idResource.getD [])) ↔
        StandsInText (w.users u).idUser ∧ StandsInText (w.users u).passwd ∧
          ∃ r, (w.users u).idResource = some r ∧ StandsInText r ∧
            (jcomId idBufSize (w.users u).tmpid).length + (w.users u).idUser.length +
              (w.users u).passwd.length + r.length + 127 < 1000)) ∧
    (userDoLoginDigest u now w = .ok ret w' → (∀ s, IsDigest (w.sha s)) →
      (HandWritten w w' (loginDigestBuf (loginDigestText w u)) (loginDigestText w u)
          (LogsIn "digest" (w.users u).idUser (w.sha (digestSource w u)) ((w.users u).idResource.getD [])) ↔
        digestSource w u ≠ [] ∧ StandsInText (w.users u).idUser ∧
          ∃ r, (w.users u).idResource = some r ∧ StandsInText r ∧
            (jcomId idBufSize (w.users u).tmpid).length + (w.users u).idUser.length + 40 + r.length +
              123 < 1000)) ∧
    ∀ jidFull msg, userDoSendMessage u jidFull (some msg) w = .ok ret w' → w.Takes u →
      (HandWritten w w' (sendMessageBuf jidFull msg) (messageText jidFull msg) (Tells jidFull msg) ↔
        StandsInValue jidFull ∧ StandsInText msg ∧ jidFull.length + msg.length + 500 < 2 ^ 31) :=
  ⟨loginPlain_iff, loginDigest_iff, fun _ _ => sendMessage_iff⟩

/-- A user on an open stream. -/
def streamWorld : World :=
  { plainWorld [] with
    users := fun _ =>
      { plainUser [] with
        idUser := cstr "ala"
        passwd := cstr "x"
        idResource := some (cstr "r")
        sid := some (cstr "1")
        conn := some 0 }
    sha := fun _ => cstr "6fe62d0dd7db314b7f9bb945672f078e01d27f0f" }

theorem standsInText_of_ascii {s : CString} (ascii : ∀ c ∈ s, (32 ≤ c.toNat ∧ c.toNat < 128) ∧
    c ∉ ['<', '&', ']']) : StandsInText s := by
  have others : ∀ c ∈ ['<', '&', carriageReturn], 32 ≤ c.toNat → c ∈ ['<', '&', ']'] := by decide
  refine ⟨encoded_of_ascii fun c here => (ascii c here).1,
    fun c here mark => (ascii c here).2 (others c mark (ascii c here).1.1), fun inside => ?_⟩
  have bracket : ']' ∈ s := inside.subset (by decide)
  exact (ascii _ bracket).2 (by decide)

theorem handWritten_iff_ala :
    (∃ w', userDoLoginPlain 0 5 streamWorld = .ok 0 w' ∧ HandWritten streamWorld w'
      (loginPlainBuf (loginPlainText streamWorld 0)) (loginPlainText streamWorld 0)
      (LogsIn "password" (cstr "ala") (cstr "x") (cstr "r"))) ∧
    (∃ w', userDoLoginDigest 0 5 streamWorld = .ok 0 w' ∧ HandWritten streamWorld w'
      (loginDigestBuf (loginDigestText streamWorld 0)) (loginDigestText streamWorld 0)
      (LogsIn "digest" (cstr "ala") (cstr "6fe62d0dd7db314b7f9bb945672f078e01d27f0f") (cstr "r"))) ∧
    ∃ w', userDoSendMessage 0 (cstr "ola@host") (some (cstr "hi")) streamWorld = .ok 0 w' ∧
      HandWritten streamWorld w' (sendMessageBuf (cstr "ola@host") (cstr "hi"))
        (messageText (cstr "ola@host") (cstr "hi")) (Tells (cstr "ola@host") (cstr "hi")) := by
  have ala : StandsInText (cstr "ala") := standsInText_of_ascii (by decide)
  have r : StandsInText (cstr "r") := standsInText_of_ascii (by decide)
  have digest : IsDigest (cstr "6fe62d0dd7db314b7f9bb945672f078e01d27f0f") := ⟨by decide, by decide⟩
  have takes : streamWorld.Takes 0 := ⟨0, rfl, by decide⟩
  have address : StandsInValue (cstr "ola@host") := ⟨encoded_of_ascii (by decide), by decide⟩
  refine ⟨⟨_, run_of_returned (by decide +kernel), ?_⟩, ⟨_, run_of_returned (by decide +kernel), ?_⟩,
    _, run_of_returned (by decide +kernel), ?_⟩
  · exact ((handWritten_iff streamWorld _ 0 5 0).1 (run_of_returned (by decide +kernel))).mpr
      ⟨ala, standsInText_of_ascii (by decide), cstr "r", rfl, r, by decide⟩
  · exact ((handWritten_iff streamWorld _ 0 5 0).2.1 (run_of_returned (by decide +kernel))
      fun _ => digest).mpr ⟨by decide, ala, cstr "r", rfl, r, by decide⟩
  · exact ((handWritten_iff streamWorld _ 0 5 0).2.2 _ _ (run_of_returned (by decide +kernel)) takes).mpr
      ⟨address, standsInText_of_ascii (by decide), by decide⟩

/-- A message with an angle bracket in its text. -/
theorem handWritten_bracket : ¬∀ w w' u ret jidFull msg,
    userDoSendMessage u jidFull (some msg) w = .ok ret w' → w.Takes u →
    HandWritten w w' (sendMessageBuf jidFull msg) (messageText jidFull msg) (Tells jidFull msg) := by
  intro claim
  have written := claim streamWorld _ 0 0 (cstr "ola@host") (cstr "1 < 2")
    (run_of_returned (by decide +kernel)) ⟨0, rfl, by decide⟩
  obtain ⟨x, read, tells⟩ := written.read
  have stands := (message_read read tells).2
  exact stands.plain '<' (by decide) (by decide)

end HandWritten

end JabSimul
