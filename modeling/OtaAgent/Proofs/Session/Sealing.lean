import OtaAgent.Proofs.Journal.Sealing
import OtaAgent.Proofs.Session.Coupled

set_option autoImplicit false

namespace OtaAgent.Session

open Unguarded (runOn_bind)

variable {σ : Type} (session : Session σ) (bus : Bus) (ending : Ending) (book : Option Logbook)
  (s : Station σ)

/-- The ways out of a session that sets out from `s`: what it comes to, and what it leaves. -/
inductive Exit : Except Panic (Except Error Unit) → Station σ → Prop
  | unprepared {e : Error} {after : Station σ}
      (failed : (prepare session.device).runOn s = (.ok (.error e), after)) :
      Exit (.ok (.error e)) after
  | unwound {p : Panic} {after : Station σ}
      (panicked : (prepare session.device).runOn s = (.error p, after)) : Exit (.error p) after
  | unjoined {e : Error} {after : Station σ}
      (prepared : (prepare session.device).runOn s = (.ok (.ok ()), after))
      (refused : bus.join session.registration = .error e) : Exit (.ok (.error e)) after
  | stopped {ready begun after : Station σ} {arrivals : List Arrival} {p : Panic}
      (prepared : (prepare session.device).runOn s = (.ok (.ok ()), ready))
      (joined : bus.join session.registration = .ok arrivals)
      (noted : (logging book (noteJoined session)).runOn ready = (.ok (), begun))
      (panicked : (receiveAll session.device arrivals book).runOn begun = (.error p, after)) :
      Exit (.error p) after
  | ended {ready begun dealt after : Station σ} {arrivals : List Arrival}
      (prepared : (prepare session.device).runOn s = (.ok (.ok ()), ready))
      (joined : bus.join session.registration = .ok arrivals)
      (noted : (logging book (noteJoined session)).runOn ready = (.ok (), begun))
      (received : (receiveAll session.device arrivals book).runOn begun = (.ok (), dealt))
      (closed : (logging book (noteEnd ending)).runOn dealt = (.ok (), after)) :
      Exit (.ok (.ok ())) after

theorem runOn_logging_note (level : Level) (code message : String) :
    (logging book (note level code message)).runOn s =
      (.ok (), logged book s.journal.length (s.noted ⟨level, code, message⟩)) :=
  runOn_logging ..

variable {book} {s}

theorem serve_exits (s : Station σ) :
    Exit session bus ending book s ((session.serve bus ending book).runOn s).1
      ((session.serve bus ending book).runOn s).2 := by
  unfold serve
  rw [runOn_bind]
  cases prepared : (prepare session.device).runOn s with
  | mk result ready => match result with
    | .error p => exact .unwound prepared
    | .ok (.error e) => exact .unprepared prepared
    | .ok (.ok ()) =>
      dsimp only
      cases joined : bus.join session.registration with
      | error e => exact .unjoined prepared joined
      | ok arrivals =>
        dsimp only
        have noted := runOn_logging_note book ready .info "AGENT-START"
          s!"{session.device.profile.handler} registered on {session.registration.url}"
        rw [runOn_bind, noteJoined, noted]
        dsimp only
        rw [runOn_bind, untilEnd, runOn_bind]
        cases received : (receiveAll session.device arrivals book).runOn
            (logged book ready.journal.length _) with
        | mk result dealt => cases result with
          | error p => exact .stopped prepared joined noted received
          | ok _ => exact .ended prepared joined noted received (runOn_logging_note ..)

/-- Adding entries to the log does not change its seal. -/
def EntriesSpareSeal (σ : Type) (book : Logbook) : Prop :=
  ∀ (s : Station σ) (written : Nat), book.file.Writable s.site.files →
    (logged (some book) written s).site.files.read book.file.sealPath =
      s.site.files.read book.file.sealPath

theorem run_of_ended {book : Logbook} {served : Station σ}
    (ended : (session.serve bus ending (some book)).runOn s = (.ok (.ok ()), served))
    (writable : book.file.Writable served.site.files) :
    ((session.run bus ending (some book)).runOn s).1 = .ok (.ok ()) ∧
      book.file.Sealed ((session.run bus ending (some book)).runOn s).2.site.files := by
  obtain ⟨next, finished, sealed⟩ := writable.finish
  have wrote : (writeSeal book.file).runOn served =
      (.ok (.ok ()), { served with site := { served.site with files := next } }) := by
    have written : (writeSeal book.file).runOn served =
        (.ok (book.file.finish.runOn served.site.files).1, { served with
          site := { served.site with
            files := (book.file.finish.runOn served.site.files).2 } }) := rfl
    rw [written, finished]
  unfold run
  rw [runOn_bind, ended]
  dsimp only
  rw [wrote]
  exact ⟨rfl, sealed⟩

/-- A session that was not served to its end does nothing after that. -/
theorem run_of_not_ended (failed : ((session.serve bus ending book).runOn s).1 ≠ .ok (.ok ())) :
    (session.run bus ending book).runOn s = (session.serve bus ending book).runOn s := by
  unfold run
  rw [runOn_bind]
  cases served : (session.serve bus ending book).runOn s with
  | mk result after =>
    rw [served] at failed
    match result with
    | .error p => rfl
    | .ok (.error e) => rfl
    | .ok (.ok ()) => exact absurd rfl failed

/-- A log that can be sealed is sealed if the session is served to its end. On every other way out
what failed is passed on and nothing more is done, and no entry that was made until then has changed
the seal. -/
theorem run_seals (book : Logbook) (s : Station σ)
    (writable : book.file.Writable
      ((session.serve bus ending (some book)).runOn s).2.site.files) :
    let served := (session.serve bus ending (some book)).runOn s
    let ran := (session.run bus ending (some book)).runOn s
    Exit session bus ending (some book) s served.1 served.2 ∧
      (served.1 = .ok (.ok ()) → ran.1 = .ok (.ok ()) ∧ book.file.Sealed ran.2.site.files) ∧
      (served.1 ≠ .ok (.ok ()) → ran = served) ∧ EntriesSpareSeal σ book :=
  ⟨serve_exits session bus ending s,
    fun ended => run_of_ended session bus ending (Prod.ext ended rfl) writable,
    fun failed => run_of_not_ended session bus ending failed,
    fun _ _ writable => writable.read_sealPath_write _⟩

/-- A session on a bus that closes at once. -/
theorem run_seals_at_once :
    let session : Session Unit :=
      ⟨⟨.minimal, ⟨⟨"/versions"⟩, ⟨"/backups"⟩⟩, ⟨"ecu", none, true⟩⟩,
        ⟨"tcp://localhost:9133", ⟨"/certs"⟩, ⟨"/cache"⟩, ⟨"/backups"⟩, false, "", false, false⟩⟩
    let bus := Bus.inMemory [] false false
    let book : Logbook := ⟨⟨⟨"/l.log"⟩, ["l.log"]⟩, fun _ => ⟨0, 0⟩⟩
    let s : Station Unit := .fresh () ⟨[(["l.log"], .file [])], [], false⟩ .accepting
    let served := (session.serve bus .closed (some book)).runOn s
    let ran := (session.run bus .closed (some book)).runOn s
    (book.file.Writable served.2.site.files ∧ served.1 = .ok (.ok ())) ∧
      Exit session bus .closed (some book) s served.1 served.2 ∧
      (served.1 = .ok (.ok ()) → ran.1 = .ok (.ok ()) ∧ book.file.Sealed ran.2.site.files) ∧
      (served.1 ≠ .ok (.ok ()) → ran = served) ∧ EntriesSpareSeal Unit book := by
  intro session bus book s served ran
  have writable : book.file.Writable served.2.site.files :=
    (LogFile.writable_alone.write _).write _
  exact ⟨⟨writable, rfl⟩, run_seals session bus .closed book s writable⟩

/-- The agent cannot prepare itself: the log can be sealed and is not. -/
theorem run_unsealed_unprepared :
    let agent : Agent Unit := { Agent.minimal with
      init := fun site => (.error (.error (.hook "init" "no device")), site) }
    let session : Session Unit :=
      ⟨⟨agent, ⟨⟨"/versions"⟩, ⟨"/backups"⟩⟩, ⟨"ecu", none, true⟩⟩,
        ⟨"tcp://localhost:9133", ⟨"/certs"⟩, ⟨"/cache"⟩, ⟨"/backups"⟩, false, "", false, false⟩⟩
    let book : Logbook := ⟨⟨⟨"/l.log"⟩, ["l.log"]⟩, fun _ => ⟨0, 0⟩⟩
    let s : Station Unit := .fresh () ⟨[(["l.log"], .file [])], [], false⟩ .accepting
    let ran := (session.run (Bus.inMemory [] false false) .closed (some book)).runOn s
    book.file.Writable ran.2.site.files ∧
      ran.1 = .ok (.error (.hook "init" "no device")) ∧
      ran.2.site.files.read book.file.sealPath = .error .notFound := by
  intro agent session book s ran
  have absent : book.file.sealPath = ⟨"/l.log.hash"⟩ := rfl
  refine ⟨LogFile.writable_alone, rfl, ?_⟩
  rw [absent]
  rfl

end OtaAgent.Session
