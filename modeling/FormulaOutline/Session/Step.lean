import FormulaOutline.Session.Basic

/-!
# Steps of a session

* `Session.poll` runs a process until it ends or has to wait.
* `Session.turn` runs an evaluation in this way and stores its values if it has ended.
-/

namespace FormulaOutline

namespace Process

mutual

def deadlines : Process → List Nat
  | waiting _ deadline _ => [deadline]
  | sleeping deadline _ => [deadline]
  | gather parts _ => deadlinesOf parts
  | _ => []

def deadlinesOf : List Process → List Nat
  | [] => []
  | p :: rest => deadlines p ++ deadlinesOf rest

end

end Process

namespace Session

/-- The moment for the caches of providers. They do not look at the wall clock. -/
def moment (s : Session) : Cache.Moment := ⟨s.clock, 0⟩

/-- Starts waiting for a scope, whose evaluation is started if it is idle. -/
def beginWait (s : Session) (id : ScopeId) : Session := (s.listen.start id false).2

/-- The time at which a wait that begins now is given up. -/
def deadline (s : Session) : Nat := s.clock + s.config.resolutionTimeoutMs

mutual

/-- Runs a process of a run, or one from outside, until it ends or has to wait. -/
def poll (run : Option Publisher) : Process → Session → Process × Session
  | .done v, s => (.done v, s)
  | .look next, s => poll run (next s.tree) s
  | .await id next, s =>
      match s.tree.values? id with
      | some values => poll run (next (some values)) s
      | none =>
          if s.tree.isDisabled id then poll run (next none) s
          else if s.config.resolutionTimeoutMs = 0 then poll run (next none) (s.beginWait id)
          else (.waiting id s.deadline next, s.beginWait id)
  | .waiting id deadline next, s =>
      match s.tree.values? id with
      | some values => poll run (next (some values)) s
      | none =>
          if s.tree.isLive id && s.clock < deadline then (.waiting id deadline next, s)
          else poll run (next none) s
  | .sleep ms next, s =>
      if ms = 0 then poll run next s else (.sleeping (s.clock + ms) next, s)
  | .sleeping deadline next, s =>
      if deadline ≤ s.clock then poll run next s else (.sleeping deadline next, s)
  | .publish target name data next, s => poll run next (s.publish run target name data)
  | .consult query next, s =>
      let (answer, providers) := s.providers.ask s.moment query
      poll run (next answer) { s with providers }
  | .gather parts next, s =>
      let (parts, s) := pollAll run parts s
      match Process.values? parts with
      | some values => poll run (next values) s
      | none => (.gather parts next, s)

/-- Runs processes side by side, the first one first. -/
def pollAll (run : Option Publisher) : List Process → Session → List Process × Session
  | [], s => ([], s)
  | p :: rest, s =>
      let (p, s) := poll run p s
      let (rest, s) := pollAll run rest s
      (p :: rest, s)

end

/-- Runs an evaluation until it ends or has to wait. It goes behind the others if it waits, and is
stored if it has ended. -/
def turn (s : Session) (t : Task) : Session :=
  let (parts, s) := pollAll (some t.run) t.parts s
  match Process.values? parts with
  | some values => s.complete t.run values
  | none => { s with tasks := s.tasks ++ [⟨t.run, parts⟩] }

end Session

end FormulaOutline
