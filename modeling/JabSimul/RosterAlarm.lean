import JabSimul.ForeignIds

/-!
The report that a user has not as many contacts as at the end of its last session.
-/
namespace JabSimul

/-- The test at the end of `roster_hash_from_xml`, when a whole roster was loaded. -/
def LoadReports (u : UserPtr) (xml : Option XmlNode) (w : World) : Prop :=
  let user := (rosterHashStore u xml true w).users u
  user.lastRosterCount ≠ -1 ∧ user.lastRosterCount ≠ user.rosterCount

instance (u : UserPtr) (xml : Option XmlNode) (w : World) : Decidable (LoadReports u xml w) :=
  inferInstanceAs (Decidable (_ ∧ _))

/-- Nothing happened to the tables and to the remembered counts. -/
structure SameCounts (w w' : World) : Prop extends SameTables w w' where
  last : ∀ u, (w'.users u).lastRosterCount = (w.users u).lastRosterCount

/-- What happens to the rosters in runs of sessions, with whether the roster of the present session
is loaded, and with the number of contacts that the last session with a loaded roster had at its end.
In a prompt run every push comes after the answer with the whole roster, and this comes once. -/
inductive RosterSessions (prompt : Prop) :
    World → (UserPtr → Bool) → (UserPtr → Option Nat) → Prop
  | init {w} (fresh : w.Initial) : RosterSessions prompt w (fun _ => false) fun _ => none
  | load {w loaded last} (before : RosterSessions prompt w loaded last) (u : UserPtr)
      (xml : Option XmlNode) (once : prompt → loaded u = false) :
      RosterSessions prompt (rosterHashFromXml u xml true w) (Function.update loaded u true) last
  | push {w loaded last} (before : RosterSessions prompt w loaded last) (u : UserPtr)
      (xml : Option XmlNode) (later : prompt → loaded u = true) :
      RosterSessions prompt (rosterHashFromXml u xml false w) loaded last
  | kill {w loaded last} (before : RosterSessions prompt w loaded last) (u : UserPtr) :
      RosterSessions prompt (rosterHashDelete u w) (Function.update loaded u false)
        (if loaded u then Function.update last u (some (w.rosterEntries u).length) else last)
  | other {w w' loaded last} (before : RosterSessions prompt w loaded last)
      (same : SameCounts w w') : RosterSessions prompt w' loaded last

section Whole

variable {w : World} {u : UserPtr}

/-- The report is what the trace gains. -/
theorem trace_load (xml : Option XmlNode) : (rosterHashFromXml u xml true w).trace =
    if LoadReports u xml w ∧ (w.users u).flags.sniff = false then
      .report u .rosterCountMismatch :: w.trace else w.trace := by
  have frame := rosterHashStore_frame w u xml true
  obtain ⟨hash, count, last, user⟩ := frame.user
  have sniff : ((rosterHashStore u xml true w).users u).flags.sniff = (w.users u).flags.sniff := by
    rw [user]
  by_cases reports : LoadReports u xml w
  · have reported : rosterHashFromXml u xml true w =
        (rosterHashStore u xml true w).userDebug u .rosterCountMismatch :=
      if_pos ⟨rfl, reports⟩
    rw [reported, World.userDebug, sniff]
    cases (w.users u).flags.sniff with
    | true =>
      rw [if_pos rfl, if_neg (by simp)]
      exact frame.trace
    | false =>
      rw [if_neg (by simp), if_pos ⟨reports, rfl⟩]
      exact congrArg _ frame.trace
  · have silent : rosterHashFromXml u xml true w = rosterHashStore u xml true w :=
      if_neg fun both => reports both.2
    rw [silent, if_neg fun both => reports both.1]
    exact frame.trace

theorem hash_fromXml (xml : Option XmlNode) (delete : Bool) :
    ((rosterHashFromXml u xml delete w).users u).rosterHash.isSome := by
  rw [rosterHashFromXml_users]
  exact rosterStoreItems_isSome u (rosterHashOpen_isSome w u xml delete) _

/-- A deletion remembers the count of a roster, if there is one. -/
theorem hashDelete_user : ((rosterHashDelete u w).users u).rosterHash = none ∧
    ((rosterHashDelete u w).users u).lastRosterCount =
      if (w.users u).rosterHash.isSome then (w.users u).rosterCount
      else (w.users u).lastRosterCount := by
  cases hash : (w.users u).rosterHash with
  | none => simp [rosterHashDelete, hash]
  | some h =>
    obtain ⟨cells, deleted⟩ := deleteItems_eq w (xhashWalk h)
    simp [rosterHashDelete, hash, deleted, World.updUser, World.updGlobals]

end Whole

section Runs

variable {w w' : World} {loaded : UserPtr → Bool} {last : UserPtr → Option Nat}

/-- In a prompt run a user has a roster while the roster of its session is loaded, and remembers the
count of the last one. -/
structure Remembers (w : World) (loaded : UserPtr → Bool) (last : UserPtr → Option Nat) : Prop where
  tables : w.Tables
  hash : ∀ u, (w.users u).rosterHash.isSome = loaded u
  count : ∀ u, (w.users u).lastRosterCount = (last u).elim (-1 : Int) fun n => n

namespace Remembers

variable (remembers : Remembers w loaded last) (u : UserPtr) (xml : Option XmlNode)
include remembers

/-- The answer that comes first finds no roster to delete, so nothing is forgotten. -/
theorem last_store (first : loaded u = false) :
    ((rosterHashStore u xml true w).users u).lastRosterCount =
      (last u).elim (-1 : Int) fun n => n := by
  have none : (w.users u).rosterHash.isSome = false := (remembers.hash u).trans first
  rw [lastRosterCount_store, if_pos rfl, hashDelete_user.2, none]
  exact remembers.count u

theorem load (first : loaded u = false) :
    Remembers (rosterHashFromXml u xml true w) (Function.update loaded u true) last := by
  constructor
  · exact (rosterHashFromXml_tables xml remembers.tables true).1
  · intro v
    by_cases own : v = u
    · subst own
      rw [hash_fromXml, Function.update_self]
    · rw [fromXml_others _ _ xml true own, Function.update_of_ne own]
      exact remembers.hash v
  · intro v
    by_cases own : v = u
    · subst own
      rw [rosterHashFromXml_users]
      exact remembers.last_store v xml first
    · rw [fromXml_others _ _ xml true own]
      exact remembers.count v

theorem push (later : loaded u = true) :
    Remembers (rosterHashFromXml u xml false w) loaded last := by
  constructor
  · exact (rosterHashFromXml_tables xml remembers.tables false).1
  · intro v
    by_cases own : v = u
    · subst own
      rw [hash_fromXml, later]
    · rw [fromXml_others _ _ xml false own]
      exact remembers.hash v
  · intro v
    by_cases own : v = u
    · subst own
      rw [lastRosterCount_push]
      exact remembers.count v
    · rw [fromXml_others _ _ xml false own]
      exact remembers.count v

theorem kill : Remembers (rosterHashDelete u w) (Function.update loaded u false)
    (if loaded u then Function.update last u (some (w.rosterEntries u).length) else last) := by
  have frame := rosterHashDelete_frame w u
  constructor
  · exact (rosterHashDelete_spec remembers.tables).1
  · intro v
    by_cases own : v = u
    · subst own
      rw [hashDelete_user.1, Function.update_self]
      rfl
    · rw [frame.others v own, Function.update_of_ne own]
      exact remembers.hash v
  · intro v
    by_cases own : v = u
    · subst own
      rw [hashDelete_user.2, remembers.hash]
      cases loaded v with
      | true =>
        rw [if_pos rfl, if_pos rfl, Function.update_self]
        exact remembers.tables.counted v
      | false => exact remembers.count v
    · rw [frame.others v own, remembers.count v]
      split
      · rw [Function.update_of_ne own]
      · rfl

theorem other (same : SameCounts w w') : Remembers w' loaded last := by
  constructor
  · exact (same.toSameTables.spec remembers.tables).1
  · intro v
    rw [same.hash]
    exact remembers.hash v
  · intro v
    rw [same.last]
    exact remembers.count v

end Remembers

theorem RosterSessions.remembers (run : RosterSessions True w loaded last) :
    Remembers w loaded last := by
  induction run with
  | init fresh =>
    constructor
    · exact fresh.rosters.1.toTables
    · intro u
      rw [(fresh.users u).rosterHash]
      rfl
    · exact fun u => (fresh.users u).lastRosterCount
  | load _ u xml once ih => exact ih.load u xml (once trivial)
  | push _ u xml later ih => exact ih.push u xml (later trivial)
  | kill _ u ih => exact ih.kill u
  | other _ same ih => exact ih.other same

/-- In a prompt run the answer with the whole roster is reported exactly if there was a session with
a loaded roster, and the last one ended with another number of contacts. The report of a sniffed user
goes to WARN_DL in place of ERR_DL, which DEBUG_LEVEL ERR_DL does not print: the trace has it only for
the others. -/
theorem roster_loss_reported (run : RosterSessions True w loaded last) (u : UserPtr)
    (xml : Option XmlNode) (first : loaded u = false) :
    (LoadReports u xml w ↔ ∃ n, last u = some n ∧
      n ≠ ((rosterHashFromXml u xml true w).rosterEntries u).length) ∧
    (rosterHashFromXml u xml true w).trace =
      if LoadReports u xml w ∧ (w.users u).flags.sniff = false then
        .report u .rosterCountMismatch :: w.trace else w.trace := by
  refine ⟨?_, trace_load xml⟩
  have remembers := run.remembers
  have remembered := remembers.last_store u xml first
  have counted := (remembers.load u xml first).tables.counted u
  rw [rosterHashFromXml_users] at counted
  rw [LoadReports, counted, remembered]
  cases last u with
  | none => simp
  | some n =>
    simp only [Option.elim_some, Option.some.injEq, exists_eq_left']
    omega

/-- There is such a run of sessions. -/
def World.InSessions (w : World) : Prop :=
  ∃ loaded last, RosterSessions False w loaded last

theorem SameCounts.updUser {u : UserPtr} {f : UserProperities → UserProperities}
    (hash : (f (w.users u)).rosterHash = (w.users u).rosterHash)
    (count : (f (w.users u)).rosterCount = (w.users u).rosterCount)
    (last : (f (w.users u)).lastRosterCount = (w.users u).lastRosterCount) :
    SameCounts w (w.updUser u f) := by
  refine ⟨.updUser hash count, fun v => ?_⟩
  by_cases own : v = u
  · subst own
    rw [updUser_users_self, last]
  · rw [updUser_users_of_ne _ own]

theorem SameCounts.privRoster {u : UserPtr} {xml : Option XmlNode}
    (ran : privRosterFromXml u xml w = .ok ⟨⟩ w') : SameCounts w w' := by
  refine ⟨.privRoster ran, fun v => ?_⟩
  have shown : ∀ w : World, ((w.unpriv u).users v).lastRosterCount = (w.users v).lastRosterCount := by
    intro w
    by_cases own : v = u
    · subst own
      simp [World.unpriv, World.updPrivRost, World.updUser]
    · simp [World.unpriv, World.updPrivRost, World.updUser, own]
  rw [← shown w', privRosterFromXml_unpriv ran, shown]

theorem Update.inSessions {k : Concern} (update : Update k w w') (run : w.InSessions) :
    w'.InSessions := by
  obtain ⟨loaded, last, run⟩ := run
  cases update with
  | aside users items next _ =>
    exact ⟨_, _, run.other ⟨.of_same users items (Nat.le_of_eq next.symm), fun u => by rw [users]⟩⟩
  | user u f _ contacts _ =>
    exact ⟨_, _, run.other (.updUser (congrArg Contacts.rosterHash contacts)
      (congrArg Contacts.rosterCount contacts) (congrArg Contacts.lastRosterCount contacts))⟩
  | mark _ u b => exact ⟨_, _, run.other (.updUser rfl rfl rfl)⟩
  | available p b => exact ⟨_, _, run.other ⟨.available p b, fun _ => rfl⟩⟩
  | roster u xml delete =>
    cases delete with
    | true => exact ⟨_, _, run.load u xml False.elim⟩
    | false => exact ⟨_, _, run.push u xml False.elim⟩
  | privRoster _ u xml ran => exact ⟨_, _, run.other (.privRoster ran)⟩
  | rosterDelete u => exact ⟨_, _, run.kill u⟩
  | privDelete u _ => exact ⟨_, _, run.other (.updUser rfl rfl rfl)⟩

theorem World.Updated.inSessions {k : Concern} (done : w.Updated k w') (run : w.InSessions) :
    w'.InSessions := by
  induction done with
  | refl => exact run
  | tail _ update ih => exact update.inSessions ih

theorem Move.inSessions {k : Concern} (move : Move k w w') (run : w.InSessions) :
    w'.InSessions := by
  by_cases other : k ≠ .timers
  · exact (move.updated other).inSessions run
  · obtain ⟨loaded, last, run⟩ := run
    cases move with
    | sooner u f tm => exact ⟨_, _, run.other (.updUser rfl rfl rfl)⟩
    | queue u queue => exact ⟨_, _, run.other (.updUser rfl rfl rfl)⟩
    | _ => exact absurd (by simp) other

/-- Every run of the simulator is a run of sessions. -/
theorem Reachable.inSessions (reach : Reachable w) : w.InSessions := by
  refine reach.invariant (K := World.InSessions) (fun fresh => ⟨_, _, .init fresh⟩)
    (fun {v} env run => ?_) fun _ move run => move.inSessions run
  obtain ⟨loaded, last, run⟩ := run
  exact ⟨_, _, run.other ⟨.of_same rfl rfl (Nat.le_refl _), fun _ => rfl⟩⟩

end Runs

section Examples

/-- The jids of a roster, as the server tells them. -/
def rosterOf (jids : List String) : XmlNode :=
  .tag (cstr "query") [(cstr "xmlns", cstr "jabber:iq:roster")]
    (jids.map fun jid => .tag (cstr "item") [(cstr "jid", cstr jid)] [])

/-- The session ends with one contact, and the next one loads two. -/
theorem roster_loss_reported_two :
    LoadReports 0 (some (rosterOf ["ola@host", "ela@host"]))
      (rosterHashDelete 0 (rosterHashFromXml 0 (some (rosterOf ["ola@host"])) true (plainWorld []))) := by
  have fresh : RosterSessions True (plainWorld []) (fun _ => false) fun _ => none :=
    .init (plainWorld_initial [])
  have run := (fresh.load 0 (some (rosterOf ["ola@host"])) fun _ => rfl).kill 0
  have reported := roster_loss_reported run 0 (some (rosterOf ["ola@host", "ela@host"])) rfl
  refine reported.1.mpr ⟨1, ?_, ?_⟩
  · decide +kernel
  · decide +kernel

/-- A contact is pushed before the whole roster comes, in the first session. -/
def earlyPush : List (Input × Env) :=
  loginScript ++ [hears [.node (resultFor (cstr "JCOM_0") []),
    .node (.tag (cstr "iq") [(cstr "type", cstr "set")] [rosterOf ["ela@host"]]),
    .node (resultFor (cstr "doroster_0") [rosterOf ["ola@host", "ela@host"]])]]

def Ev.isLoss (u : UserPtr) : Ev → Bool
  | .report v .rosterCountMismatch => v = u
  | _ => false

def Ev.isKilled : Ev → Bool
  | .killed _ _ => true
  | _ => false

theorem early_push_reported :
    (∃ w, Reachable w ∧ w.trace.any (Ev.isLoss 0) = true ∧ w.trace.any Ev.isKilled = false) ∧
    ¬∀ w loaded last, RosterSessions False w loaded last → ∀ u xml, LoadReports u xml w ↔
      ∃ n, last u = some n ∧ n ≠ ((rosterHashFromXml u xml true w).rosterEntries u).length := by
  refine ⟨⟨(plainWorld [connectEvent]).played earlyPush, ?_, ?_, ?_⟩, fun claim => ?_⟩
  · exact reachable_played (.init (plainWorld_initial _)) _
  · decide +kernel
  · decide +kernel
  · have fresh : RosterSessions False (plainWorld []) (fun _ => false) fun _ => none :=
      .init (plainWorld_initial [])
    have run := fresh.push 0 (some (rosterOf ["ela@host"])) False.elim
    have reported := claim _ _ _ run 0 (some (rosterOf ["ola@host", "ela@host"]))
    obtain ⟨n, ended, _⟩ := reported.mp (by decide +kernel)
    cases ended

end Examples

end JabSimul
