/-
  Coverage.Session.Run

  What may happen to a session, step by step, and around it.

  `Session.Step` is what an engine or its host asks of one session. `Host.Step` adds what
  happens around it: files and resources that change, a cache that is damaged, reports, and
  the end of one session with the start of the next. A run is a fold over steps, so what
  every step keeps is kept by every run.
-/

import Coverage.Session.Host

namespace Coverage

namespace Session

/-- What may be asked of a session. Files are named by their source where the session looks
    them up, and by their number where a caller holds it. -/
inductive Step where
  | register (id : SourceId)
  | onLine (id : SourceId) (line : Nat)
  | onEntry (id : SourceId) (name : Option String) (line : Nat)
  | countLine (file line : Nat)
  | countExit (file line index : Nat)
  | countCall (file : Nat) (key : String)
  | countEntry (file : Nat) (name : Option String) (line : Nat)

/-- The session after a step. -/
def take (e : Surroundings) (s : Session) : Step → Session
  | .register id => (s.register e id).2
  | .onLine id line => s.onLine e id line
  | .onEntry id name line => s.onEntry e id name line
  | .countLine file line => s.countLine file line
  | .countExit file line index => s.countExit file line index
  | .countCall file key => (s.countCall file key).2
  | .countEntry file name line => (s.countEntry file name line).2

/-- The session after some steps in the same surroundings. -/
def run (e : Surroundings) (s : Session) (steps : List Step) : Session :=
  steps.foldl (take e) s

end Session

namespace Host

/-- What may happen to a host. -/
inductive Step where
  /-- Something is asked of the session. -/
  | ask (step : Session.Step)
  | writeFile (path : String) (bytes : Bytes) (nanos : Int)
  | deleteFile (path : String)
  | makeDirectory (path : String)
  | addResource (uri : String) (bytes : Bytes)
  | withdrawResource (uri : String)
  | damageCache (damage : Cache.Store.Damage)
  | report (directory : String)
  | restart (settings : Session.Settings) (next : NextCache)

/-- The host after a step. -/
def take (h : Host) : Step → Host
  | .ask step => { h with session := h.session.take h.surroundings step }
  | .writeFile path bytes nanos =>
    h.setWorkspace (h.surroundings.workspace.install path bytes nanos)
  | .deleteFile path => h.setWorkspace (h.surroundings.workspace.delete path)
  | .makeDirectory path => h.setWorkspace (h.surroundings.workspace.makeDirectory path).2
  | .addResource uri bytes => h.setArchive (h.surroundings.archive.add uri bytes)
  | .withdrawResource uri => h.setArchive (h.surroundings.archive.withdraw uri)
  | .damageCache damage =>
    let damaged := h.session.cache.damage h.surroundings.workspace damage
    (h.setWorkspace damaged.2).setCache damaged.1
  | .report directory =>
    h.setWorkspace (Report.write directory h.surroundings.workspace h.session.files).2
  | .restart settings next => (h.restart settings next).host

/-- The host after some steps. -/
def run (h : Host) (steps : List Step) : Host :=
  steps.foldl take h

end Host
end Coverage
