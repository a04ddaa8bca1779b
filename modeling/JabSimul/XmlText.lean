import JabSimul.XmlNode
import JabSimul.Lib.XmlReading

/-!
How the text of a stanza can be read: two stanzas with one text have the same name,
the same attributes and the same data. Character data that stands together is one
text, however it is cut.
-/
namespace JabSimul

open XmlReading (cut_unique)

/-- No character of a name ends it. -/
def XmlName (s : CString) : Prop :=
  s ≠ [] ∧ ∀ c ∈ s, c ∉ [' ', '=', '>', '/', '<']

/-- A stanza as it is read from a text. -/
inductive XmlNode.Proper : XmlNode → Prop
  | cdata {d} (some : d ≠ []) : Proper (.cdata d)
  | tag {n as cs} (name : XmlName n) (keys : ∀ a ∈ as, XmlName a.1) (kids : ∀ c ∈ cs, c.Proper) :
      Proper (.tag n as cs)

mutual

/-- The stanza with every piece of character data cut into single characters. -/
def XmlNode.spread : XmlNode → List XmlNode
  | .cdata d => d.map fun c => .cdata [c]
  | .tag n as cs => [.tag n as (spreads cs)]

def spreads : List XmlNode → List XmlNode
  | [] => []
  | c :: cs => c.spread ++ spreads cs

end

section Characters

/-- The character behind an ampersand, with what is left of the text. -/
def readEntity (s : CString) : Option (Char × CString) :=
  match s with
  | 'a' :: 'm' :: 'p' :: ';' :: s => some ('&', s)
  | 'a' :: 'p' :: 'o' :: 's' :: ';' :: s => some (Char.ofNat 39, s)
  | 'q' :: 'u' :: 'o' :: 't' :: ';' :: s => some (Char.ofNat 34, s)
  | 'l' :: 't' :: ';' :: s => some ('<', s)
  | 'g' :: 't' :: ';' :: s => some ('>', s)
  | _ => none

/-- The first character that a text spells. -/
def readChar (s : CString) : Option (Char × CString) :=
  match s with
  | [] => none
  | c :: s => if c = '&' then readEntity s else some (c, s)

theorem readChar_escapeChar (c : Char) (s : CString) :
    readChar (escapeChar c ++ s) = some (c, s) := by
  unfold escapeChar
  split
  · subst c
    rfl
  split
  · subst c
    rfl
  split
  · subst c
    rfl
  split
  · subst c
    rfl
  split
  · subst c
    rfl
  · rename_i other _ _ _ _
    exact if_neg other

theorem escapeChar_unique {c d : Char} {s s' : CString}
    (same : escapeChar c ++ s = escapeChar d ++ s') : c = d ∧ s = s' := by
  have read := congrArg readChar same
  rw [readChar_escapeChar, readChar_escapeChar] at read
  injection read with both
  injection both with char rest
  exact ⟨char, rest⟩

/-- An escaped character begins with no character that has an escape, but for the
ampersand. -/
theorem escapeChar_head (c : Char) : ∃ d s, escapeChar c = d :: s ∧ d ≠ '<' := by
  unfold escapeChar
  split
  · exact ⟨_, _, rfl, by decide⟩
  split
  · exact ⟨_, _, rfl, by decide⟩
  split
  · exact ⟨_, _, rfl, by decide⟩
  split
  · exact ⟨_, _, rfl, by decide⟩
  split
  · exact ⟨_, _, rfl, by decide⟩
  · rename_i _ _ _ other _
    exact ⟨_, _, rfl, other⟩

theorem quote_not_mem_escapeChar (c : Char) : Char.ofNat 39 ∉ escapeChar c := by
  unfold escapeChar
  split
  · decide
  split
  · decide
  split
  · decide
  split
  · decide
  split
  · decide
  · rename_i _ other _ _ _
    simpa using fun same => other same.symm

theorem strescape_unique {s t : CString} (same : strescape s = strescape t) : s = t := by
  induction s generalizing t with
  | nil =>
    cases t with
    | nil => rfl
    | cons d t =>
      obtain ⟨e, rest, head, _⟩ := escapeChar_head d
      simp [strescape, head] at same
  | cons c s ih =>
    cases t with
    | nil =>
      obtain ⟨e, rest, head, _⟩ := escapeChar_head c
      simp [strescape, head] at same
    | cons d t =>
      obtain ⟨char, rest⟩ := escapeChar_unique same
      rw [char, ih rest]

end Characters

section Attributes

variable {as bs : List (CString × CString)} {r r' : CString}

theorem attribsStr_cons (a : CString × CString) (as : List (CString × CString)) :
    attribsStr (a :: as) =
      ' ' :: (a.1 ++ '=' :: Char.ofNat 39 :: (strescape a.2 ++ Char.ofNat 39 :: attribsStr as)) := by
  simp [attribsStr, cstr]

theorem XmlName.cut {n m : CString} (name : XmlName n) (name' : XmlName m)
    (ends : ∀ c ∈ r.head?, c ∈ [' ', '=', '>', '/', '<'])
    (ends' : ∀ c ∈ r'.head?, c ∈ [' ', '=', '>', '/', '<']) (same : n ++ r = m ++ r') :
    n = m ∧ r = r' :=
  cut_unique (p := fun c => c ∉ [' ', '=', '>', '/', '<']) name.2 name'.2
    (fun c first => not_not_intro (ends c first)) (fun c first => not_not_intro (ends' c first)) same

/-- The induction is on the attributes. They end where no blank follows. -/
theorem attribsStr_unique (keys : ∀ a ∈ as, XmlName a.1) (keys' : ∀ a ∈ bs, XmlName a.1)
    (ends : ∀ c ∈ r.head?, c ≠ ' ') (ends' : ∀ c ∈ r'.head?, c ≠ ' ')
    (same : attribsStr as ++ r = attribsStr bs ++ r') : as = bs ∧ r = r' := by
  induction as generalizing bs with
  | nil =>
    cases bs with
    | nil => exact ⟨rfl, same⟩
    | cons b bs =>
      rw [attribsStr_cons] at same
      change r = _ at same
      subst same
      exact absurd rfl (ends ' ' (by simp))
  | cons a as ih =>
    cases bs with
    | nil =>
      rw [attribsStr_cons] at same
      change _ = r' at same
      subst same
      exact absurd rfl ( ends' ' ' (by simp))
    | cons b bs =>
      rw [attribsStr_cons, attribsStr_cons] at same
      simp only [List.cons_append, List.append_assoc] at same
      injection same with _ same
      obtain ⟨key, same⟩ := XmlName.cut (keys a List.mem_cons_self) (keys' b List.mem_cons_self)
        (by simp) (by simp) same
      injection same with _ same
      injection same with _ same
      have quoted : ∀ s : CString, ∀ c ∈ strescape s, c ≠ Char.ofNat 39 := by
        rintro s c here rfl
        obtain ⟨d, _, inside⟩ := List.mem_flatMap.mp here
        exact quote_not_mem_escapeChar d inside
      obtain ⟨value, same⟩ := cut_unique (quoted a.2) (quoted b.2) (by simp) (by simp) same
      injection same with _ same
      obtain ⟨rest, same⟩ := ih (fun a here => keys a (List.mem_cons_of_mem _ here))
        (fun a here => keys' a (List.mem_cons_of_mem _ here)) same
      exact ⟨by rw [rest, Prod.ext key (strescape_unique value)], same⟩

end Attributes

section Nodes

variable {cs ds : List XmlNode} {r r' : CString}

/-- What stands behind the attributes of a tag. -/
def kidsText (n : CString) (cs : List XmlNode) : CString :=
  match cs with
  | [] => cstr "/>"
  | c :: cs => '>' :: (xmlnodes2str (c :: cs) ++ '<' :: '/' :: (n ++ cstr ">"))

theorem tag_text (n : CString) (as : List (CString × CString)) (cs : List XmlNode) :
    xmlnode2str (.tag n as cs) = '<' :: (n ++ (attribsStr as ++ kidsText n cs)) := by
  cases cs with
  | nil => simp [xmlnode2str, kidsText, cstr]
  | cons c cs => simp [xmlnode2str, xmlnodes2str, kidsText, cstr]

/-- A text that goes on behind the children of a tag. -/
def ClosesTag (r : CString) : Prop := r = [] ∨ ∃ s, r = '<' :: '/' :: s

inductive Lead where
  | close
  | data
  | tag
  deriving DecidableEq

/-- What a text begins with. -/
def lead : CString → Lead
  | [] | '<' :: '/' :: _ => .close
  | '<' :: _ => .tag
  | _ => .data

theorem lead_of_closesTag (closes : ClosesTag r) : lead r = .close := by
  rcases closes with rfl | ⟨s, rfl⟩
  · rfl
  · rfl

theorem lead_escapeChar (c : Char) (s : CString) : lead (escapeChar c ++ s) = .data := by
  obtain ⟨d, rest, head, other⟩ := escapeChar_head c
  rw [head]
  unfold lead
  split <;> simp_all

theorem lead_tag {n : CString} (name : XmlName n) (s : CString) :
    lead ('<' :: (n ++ s)) = .tag := by
  obtain ⟨nonempty, inside⟩ := name
  cases n with
  | nil => exact absurd rfl nonempty
  | cons c n =>
    have other := inside c List.mem_cons_self
    unfold lead
    split <;> simp_all

/-- The first thing in a list of children: nothing, a character or a tag. -/
theorem head_cases (proper : ∀ c ∈ cs, c.Proper) : cs = [] ∨
    (∃ c rest, (∀ c ∈ rest, XmlNode.Proper c) ∧
      xmlnodes2str cs = escapeChar c ++ xmlnodes2str rest ∧
        spreads cs = .cdata [c] :: spreads rest) ∨
    ∃ n as kids rest, cs = .tag n as kids :: rest := by
  cases cs with
  | nil => exact .inl rfl
  | cons first rest =>
    cases first with
    | tag n as kids => exact .inr (.inr ⟨n, as, kids, rest, rfl⟩)
    | cdata d =>
      obtain ⟨nonempty⟩ := proper _ List.mem_cons_self
      have rest_proper := fun c here => proper c (List.mem_cons_of_mem _ here)
      cases d with
      | nil => exact absurd rfl nonempty
      | cons c d =>
        cases d with
        | nil =>
          exact .inr (.inl ⟨c, rest, rest_proper, by simp [xmlnodes2str, xmlnode2str, strescape],
            rfl⟩)
        | cons c' d =>
          refine .inr (.inl ⟨c, .cdata (c' :: d) :: rest, ?_,
            by simp [xmlnodes2str, xmlnode2str, strescape], rfl⟩)
          intro x here
          rcases List.mem_cons.mp here with rfl | later
          · exact .cdata (List.cons_ne_nil _ _)
          · exact rest_proper x later

theorem kidsText_head (n : CString) (cs : List XmlNode) (r : CString) :
    ∀ c ∈ (kidsText n cs ++ r).head?, c ≠ ' ' := by
  cases cs with
  | nil => simp [kidsText, cstr]
  | cons c cs => simp [kidsText]

theorem attribs_head (as : List (CString × CString)) (n : CString) (cs : List XmlNode)
    (r : CString) : ∀ c ∈ (attribsStr as ++ (kidsText n cs ++ r)).head?,
      c ∈ [' ', '=', '>', '/', '<'] := by
  cases as with
  | cons a as =>
    rw [attribsStr_cons]
    simp
  | nil =>
    cases cs with
    | nil => simp [attribsStr, kidsText, cstr]
    | cons c cs => simp [attribsStr, kidsText]

theorem lead_char {c : Char} {rest : List XmlNode}
    (text : xmlnodes2str cs = escapeChar c ++ xmlnodes2str rest) :
    lead (xmlnodes2str cs ++ r) = .data := by
  rw [text, List.append_assoc, lead_escapeChar]

/-- The text of a list that begins with a tag. -/
theorem tags_text (n : CString) (as : List (CString × CString)) (kids rest : List XmlNode)
    (r : CString) : xmlnodes2str (.tag n as kids :: rest) ++ r =
      '<' :: (n ++ (attribsStr as ++ (kidsText n kids ++ (xmlnodes2str rest ++ r)))) := by
  rw [xmlnodes2str, tag_text]
  simp only [List.cons_append, List.append_assoc]

theorem lead_tags {n : CString} {as : List (CString × CString)} {kids rest : List XmlNode}
    (proper : ∀ c ∈ XmlNode.tag n as kids :: rest, c.Proper) :
    lead (xmlnodes2str (.tag n as kids :: rest) ++ r) = .tag := by
  cases proper _ List.mem_cons_self with
  | tag name keys kids =>
    rw [tags_text, lead_tag name]

/-- The induction is on the length of the text. A tag is taken apart in the order of
its text: name, attributes, children, and what stands behind it. -/
theorem xmlnodes2str_unique (len : Nat) (short : (xmlnodes2str cs).length < len)
    (proper : ∀ c ∈ cs, c.Proper) (proper' : ∀ c ∈ ds, c.Proper) (closes : ClosesTag r)
    (closes' : ClosesTag r') (same : xmlnodes2str cs ++ r = xmlnodes2str ds ++ r') :
    spreads cs = spreads ds ∧ r = r' := by
  induction len generalizing cs ds r r' with
  | zero => exact absurd short (Nat.not_lt_zero _)
  | succ len ih =>
    have leads := congrArg lead same
    rcases head_cases proper with rfl | ⟨c, rest, properRest, text, spread⟩ |
        ⟨n, as, kids, rest, rfl⟩ <;>
      rcases head_cases proper' with rfl | ⟨d, rest', properRest', text', spread'⟩ |
        ⟨m, bs, kids', rest', rfl⟩
    · exact ⟨rfl, same⟩
    · cases (lead_of_closesTag closes).symm.trans (leads.trans (lead_char text'))
    · cases (lead_of_closesTag closes).symm.trans (leads.trans (lead_tags proper'))
    · cases (lead_of_closesTag closes').symm.trans (leads.symm.trans (lead_char text))
    · rw [text, text', List.append_assoc, List.append_assoc] at same
      obtain ⟨char, same⟩ := escapeChar_unique same
      obtain ⟨e, s, head, _⟩ := escapeChar_head c
      rw [text, List.length_append, head, List.length_cons] at short
      obtain ⟨alike, same⟩ := ih (by omega) properRest properRest' closes closes' same
      exact ⟨by rw [spread, spread', alike, char], same⟩
    · cases (lead_char text).symm.trans (leads.trans (lead_tags proper'))
    · cases (lead_of_closesTag closes').symm.trans (leads.symm.trans (lead_tags proper))
    · cases (lead_char text').symm.trans (leads.symm.trans (lead_tags proper))
    · have next := fun c here => proper c (List.mem_cons_of_mem _ here)
      have next' := fun c here => proper' c (List.mem_cons_of_mem _ here)
      cases proper _ List.mem_cons_self with
      | tag name keys properKids =>
      cases proper' _ List.mem_cons_self with
      | tag name' keys' properKids' =>
      have long := congrArg List.length (tags_text n as kids rest [])
      rw [List.append_nil, List.append_nil] at long
      simp only [List.length_cons, List.length_append] at long
      rw [tags_text, tags_text] at same
      injection same with _ same
      obtain ⟨names, same⟩ := name.cut name' (attribs_head _ _ _ _) (attribs_head _ _ _ _) same
      obtain ⟨attribs, tails⟩ := attribsStr_unique keys keys' (kidsText_head _ _ _)
        (kidsText_head _ _ _) same
      subst names attribs
      cases kids with
      | nil =>
        cases kids' with
        | nil =>
          obtain ⟨alike, behind⟩ := ih (by omega) next next' closes closes'
            (List.append_cancel_left tails)
          exact ⟨by rw [spreads, spreads, alike], behind⟩
        | cons k' ks' =>
          injection tails with first _
          cases first
      | cons k ks =>
        cases kids' with
        | nil =>
          injection tails with first _
          cases first
        | cons k' ks' =>
          simp only [kidsText, List.cons_append, List.append_assoc, List.cons.injEq, true_and]
            at tails
          have inside : (xmlnodes2str (k :: ks)).length < len := by
            simp only [kidsText, List.length_cons, List.length_append] at long
            omega
          obtain ⟨alike, tails⟩ := ih inside properKids properKids' (.inr ⟨_, rfl⟩)
            (.inr ⟨_, rfl⟩) tails
          injection tails with _ tails
          injection tails with _ tails
          obtain ⟨alike', behind⟩ := ih (by omega) next next' closes closes'
            (List.append_cancel_left (List.append_cancel_left tails))
          refine ⟨?_, behind⟩
          rw [spreads, spreads, alike', XmlNode.spread, XmlNode.spread, alike]

/-- One text, one stanza. -/
theorem xmlnode2str_unique {x y : XmlNode} (proper : x.Proper) (proper' : y.Proper)
    (same : xmlnode2str x = xmlnode2str y) : x.spread = y.spread := by
  have listed : xmlnodes2str [x] ++ [] = xmlnodes2str [y] ++ [] := by
    simp only [xmlnodes2str, List.append_nil, same]
  have alike := (xmlnodes2str_unique _ (Nat.lt_succ_self _) (by simpa using proper)
    (by simpa using proper') (.inl rfl) (.inl rfl) listed).1
  simpa only [spreads, List.append_nil] using alike

end Nodes

section Reading

/-- What can be looked up in a tag is the same. -/
structure XmlNode.Alike (x y : XmlNode) : Prop where
  name : y.name = x.name
  attribs : y.attribs = x.attribs
  data : ∀ key, xmlnodeGetTagData (some y) key = xmlnodeGetTagData (some x) key
  tags : ∀ key, (xmlnodeGetTag (some y) key).isSome = (xmlnodeGetTag (some x) key).isSome

theorem leadingData_chars (d : CString) (cs : List XmlNode) :
    leadingData (d.map (fun c => .cdata [c]) ++ cs) = d ++ leadingData cs := by
  induction d with
  | nil => rfl
  | cons c d ih => simp [leadingData, ih]

theorem leadingData_spreads (cs : List XmlNode) : leadingData (spreads cs) = leadingData cs := by
  induction cs with
  | nil => rfl
  | cons c cs ih =>
    cases c with
    | cdata d => rw [spreads, XmlNode.spread, leadingData_chars, ih, leadingData]
    | tag n as kids => rfl

theorem childData_spreads {cs : List XmlNode} (proper : ∀ c ∈ cs, c.Proper) :
    childData (spreads cs) = childData cs := by
  induction cs with
  | nil => rfl
  | cons c cs ih =>
    cases c with
    | cdata d =>
      obtain ⟨nonempty⟩ := proper _ List.mem_cons_self
      cases d with
      | nil => exact absurd rfl nonempty
      | cons e d =>
        simp only [spreads, XmlNode.spread, List.map_cons, List.cons_append, childData,
          leadingData_chars, leadingData_spreads, List.nil_append]
    | tag n as kids => exact ih fun c here => proper c (List.mem_cons_of_mem _ here)

/-- A tag with its own data cut into characters. -/
def XmlNode.cut : XmlNode → XmlNode
  | .tag n as kids => .tag n as (spreads kids)
  | .cdata d => .cdata d

theorem find_chars (d : CString) (cs : List XmlNode) (key : CString) :
    (d.map (fun c => XmlNode.cdata [c]) ++ cs).find? (fun n => n.isTag && n.name = some key) =
      cs.find? fun n => n.isTag && n.name = some key := by
  induction d with
  | nil => rfl
  | cons c d ih => simpa [XmlNode.isTag] using ih

theorem find_spreads (cs : List XmlNode) (key : CString) :
    (spreads cs).find? (fun n => n.isTag && n.name = some key) =
      (cs.find? fun n => n.isTag && n.name = some key).map XmlNode.cut := by
  induction cs with
  | nil => rfl
  | cons c cs ih =>
    cases c with
    | cdata d =>
      rw [spreads, XmlNode.spread, find_chars, ih]
      rfl
    | tag n as kids =>
      rw [spreads, XmlNode.spread, List.singleton_append]
      by_cases here : n = key
      · simp [XmlNode.isTag, XmlNode.name, here, XmlNode.cut]
      · simpa [XmlNode.isTag, XmlNode.name, here] using ih

theorem XmlNode.Proper.kid {n : CString} {as : List (CString × CString)} {kids : List XmlNode}
    (proper : (XmlNode.tag n as kids).Proper) : ∀ c ∈ kids, c.Proper := by
  cases proper with
  | tag name keys kids => exact kids

theorem getTagData_cut {n : CString} {as : List (CString × CString)} {kids : List XmlNode}
    (proper : (XmlNode.tag n as kids).Proper) (key : CString) :
    xmlnodeGetTagData (some (.tag n as (spreads kids))) key =
      xmlnodeGetTagData (some (.tag n as kids)) key := by
  unfold xmlnodeGetTagData xmlnodeGetTag
  change xmlnodeGetData ((spreads kids).find? _) = xmlnodeGetData (kids.find? _)
  rw [find_spreads]
  cases found : kids.find? fun n => n.isTag && n.name = some key with
  | none => rfl
  | some tag =>
    have inside := proper.kid tag (List.mem_of_find?_eq_some found)
    cases tag with
    | cdata d => rfl
    | tag m bs cs => exact childData_spreads inside.kid

theorem alike_of_text {n : CString} {as : List (CString × CString)} {kids : List XmlNode}
    {y : XmlNode} (proper : (XmlNode.tag n as kids).Proper) (proper' : y.Proper)
    (same : xmlnode2str (.tag n as kids) = xmlnode2str y) : (XmlNode.tag n as kids).Alike y := by
  have cut := xmlnode2str_unique proper proper' same
  cases y with
  | cdata d =>
    cases d with
    | nil => cases cut
    | cons c d => cases cut
  | tag m bs kids' =>
    rw [XmlNode.spread, XmlNode.spread] at cut
    injection List.head_eq_of_cons_eq cut with names attribs spread
    subst names attribs
    refine ⟨rfl, rfl, fun key => ?_, fun key => ?_⟩
    · rw [← getTagData_cut proper, ← getTagData_cut proper', spread]
    · have found := find_spreads kids key
      rw [spread, find_spreads] at found
      have both := congrArg Option.isSome found
      rw [Option.isSome_map, Option.isSome_map] at both
      exact both

end Reading

end JabSimul
