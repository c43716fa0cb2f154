import Dqueue.LateMessages

/-!
The life of a server: `serverStart`, the chain of accepts, `stopServer`. The handler of
an accept makes the next one through `_acc`, which `stopServer` sets to null while an
accept may already have completed.
-/

set_option autoImplicit false

namespace Dqueue
open Std Effects RawMem AsyncIO Queries

inductive AcceptResult where
  | accepted
  /-- `operation_aborted`, `connection_reset` or `eof`. -/
  | aborted
  | failed (message : String)
  deriving DecidableEq, Repr

/-- The acceptors are numbered; `accepts` has the acceptors of the accepts that have not
completed, and `ended` counts those after which no other was made. The process is gone
once it has `crashed` on a null `_acc`. -/
structure Lifecycle where
  log : ServerLog
  acc : Option Nat
  acceptors : Nat
  accepts : List Nat
  ended : Nat
  isStarted : Bool
  crashed : Bool

abbrev LifecycleM := EStateM Failure Lifecycle

inductive LifecycleEvent where
  /-- The constructor of the acceptor throws if the port cannot be bound. -/
  | serverStart (bindError : Option String)
  /-- The `k`-th of the outstanding accepts completes. -/
  | accept (k : Nat) (result : AcceptResult)
  /-- Any other completion or call; what the two above are made of is none. -/
  | server (e : ServerEvent)
  | stopServer
  deriving DecidableEq, Repr

namespace Lifecycle

def start (cache : ReCache) : Lifecycle := ⟨ServerLog.start cache,none,0,[],0,false,false⟩

def onLog (x : ServerLogM Unit) : LifecycleM Unit := on log (fun l s => { s with log := l }) x

def followNull : LifecycleM Unit := do
  modify (fun s => { s with crashed := true })
  throw .nullDereference

def startAccept : LifecycleM Unit := do
  let s ← get
  match s.acc with
  | none => followNull
  | some a => set { s with accepts := s.accepts ++ [a] }

def serverStart (bindError : Option String) : LifecycleM Unit :=
  match bindError with
  | some message => throw (.thrown ⟨message⟩)
  | none => do
    modify (fun s => { s with acc := some s.acceptors, acceptors := s.acceptors+1 })
    startAccept
    modify (fun s => { s with isStarted := true })

def handleAccept (k : Nat) (result : AcceptResult) : LifecycleM Unit := do
  let s ← get
  if k < s.accepts.length then
    set { s with accepts := s.accepts.eraseIdx k }
    match result with
    | .aborted => modify (fun s => { s with ended := s.ended+1 })
    | .failed message =>
      modify (fun s => { s with ended := s.ended+1 })
      throw (.thrown ⟨s!"dqueue::server: error on accept - {message}"⟩)
    | .accepted =>
      onLog ServerLog.handleAccept
      startAccept

def stopServer : LifecycleM Unit := do
  let s ← get
  if !s.log.isStoped then
    match s.acc with
    | none => followNull
    | some _ =>
      set { s with acc := none }
      onLog ServerLog.stopServer

variable (regex : RegexCompiler)

def exec : LifecycleEvent → LifecycleM Unit
  | .serverStart bindError => serverStart bindError
  | .accept k result => handleAccept k result
  | .server .accept => pure ()
  | .server .stopServer => pure ()
  | .server e => onLog (ServerLog.exec regex e)
  | .stopServer => stopServer

/-- A process that has crashed does nothing more. -/
def step (s : Lifecycle) (e : LifecycleEvent) : Lifecycle :=
  if s.crashed then s else final (exec regex e s)

def run (s : Lifecycle) (es : List LifecycleEvent) : Lifecycle := es.foldl (step regex) s

/-- Late messages are of the refused kinds. -/
def LateRefused (s : Lifecycle) : LifecycleEvent → Prop
  | .server e => s.log.LateRefused regex e
  | _ => True

variable {regex} {s : Lifecycle}

inductive Step (regex : RegexCompiler) (s : Lifecycle) : LifecycleEvent → Lifecycle → Prop where
  | none {e : LifecycleEvent} (harmless : e ≠ .serverStart none)
      (stop : e = .stopServer → s.log.isStoped = true)
      (accept : ∀ k, e = .accept k .accepted → s.accepts.length ≤ k) : Step regex s e s
  | starts : Step regex s (.serverStart none) { s with
      acc := some s.acceptors
      acceptors := s.acceptors+1
      accepts := s.accepts ++ [s.acceptors]
      isStarted := true }
  | ends {k : Nat} {result : AcceptResult} (outstanding : k < s.accepts.length)
      (error : result ≠ .accepted) :
      Step regex s (.accept k result)
        { s with accepts := s.accepts.eraseIdx k, ended := s.ended+1 }
  | accepts {k a : Nat} (outstanding : k < s.accepts.length) (acc : s.acc = some a) :
      Step regex s (.accept k .accepted) { s with
        log := final (ServerLog.handleAccept s.log)
        accepts := s.accepts.eraseIdx k ++ [a] }
  | acceptsNull {k : Nat} (outstanding : k < s.accepts.length) (acc : s.acc = none) :
      Step regex s (.accept k .accepted) { s with
        log := final (ServerLog.handleAccept s.log)
        accepts := s.accepts.eraseIdx k
        crashed := true }
  | server {e : ServerEvent} (other : e ≠ .accept ∧ e ≠ .stopServer) :
      Step regex s (.server e) { s with log := s.log.step regex e }
  | stops {a : Nat} (running : s.log.isStoped = false) (acc : s.acc = some a) :
      Step regex s .stopServer { s with acc := none, log := final (ServerLog.stopServer s.log) }
  | stopsNull (running : s.log.isStoped = false) (acc : s.acc = none) :
      Step regex s .stopServer { s with crashed := true }

theorem onLog_final (x : ServerLogM Unit) (s : Lifecycle) :
    final (onLog x s) = { s with log := final (x s.log) } := by
  unfold onLog on
  cases x s.log <;> rfl

theorem startAccept_none (h : s.acc = none) :
    final (startAccept s) = { s with crashed := true } := by
  simp only [startAccept,bind_apply,get_apply,h]
  rw [← h]
  rfl

theorem startAccept_some {a : Nat} (h : s.acc = some a) :
    final (startAccept s) = { s with accepts := s.accepts ++ [a] } := by
  simp only [startAccept,bind_apply,get_apply,h]
  rw [← h]
  rfl

theorem handleAccept_cases (s : Lifecycle) (k : Nat) (result : AcceptResult) :
    Step regex s (.accept k result) (final (handleAccept k result s)) := by
  simp only [handleAccept,bind_apply,get_apply]
  split
  · rename_i hk
    cases result with
    | aborted => exact .ends hk (by simp)
    | failed message => exact .ends hk (by simp)
    | accepted =>
      obtain ⟨l,hl⟩ : ∃ l, ServerLog.handleAccept s.log = .ok () l := ⟨_,rfl⟩
      have hfinal : l = final (ServerLog.handleAccept s.log) := by rw [hl,final_ok]
      simp only [bind_apply,set_apply,onLog,on,hl]
      rcases Option.eq_none_or_eq_some s.acc with hacc | ⟨a,hacc⟩
      · rw [startAccept_none (by exact hacc),hfinal]
        exact .acceptsNull hk hacc
      · rw [startAccept_some (by exact hacc),hfinal]
        exact .accepts hk hacc
  · rename_i hk
    exact .none (by simp) (by simp) (fun j hj => by cases hj; omega)

theorem exec_cases (s : Lifecycle) (e : LifecycleEvent) :
    Step regex s e (final (exec regex e s)) := by
  cases e with
  | serverStart bindError =>
    cases bindError with
    | some message => exact .none (by simp) (by simp) (by simp)
    | none => exact .starts
  | accept k result => exact handleAccept_cases s k result
  | server e =>
    cases e with
    | accept => exact .none (by simp) (by simp) (by simp)
    | stopServer => exact .none (by simp) (by simp) (by simp)
    | _ =>
      simp only [exec,onLog_final]
      exact .server (by simp)
  | stopServer =>
    simp only [exec,stopServer,bind_apply,get_apply]
    cases hstoped : s.log.isStoped with
    | true => exact .none (by simp) (fun _ => hstoped) (by simp)
    | false =>
      simp only [Bool.not_false,if_true]
      rcases Option.eq_none_or_eq_some s.acc with hacc | ⟨a,hacc⟩
      · simp only [hacc]
        exact .stopsNull hstoped hacc
      · simp only [hacc,bind_apply,set_apply,onLog_final]
        exact .stops hstoped hacc

variable (regex) in
theorem step_cases (alive : s.crashed = false) (e : LifecycleEvent) :
    Step regex s e (s.step regex e) := by
  rw [step,alive]
  exact exec_cases s e

theorem step_crashed (crashed : s.crashed = true) (e : LifecycleEvent) :
    s.step regex e = s := by
  rw [step,crashed]
  rfl

theorem accepted_le (s : Lifecycle) (e : LifecycleEvent) :
    s.log.accepted.length ≤ (s.step regex e).log.accepted.length := by
  cases hc : s.crashed with
  | true => rw [step_crashed hc]
  | false =>
    have hstep := step_cases regex hc e
    generalize s.step regex e = s' at hstep
    cases hstep with
    | none harmless stop accept => exact Nat.le_refl _
    | starts => exact Nat.le_refl _
    | ends outstanding error => exact Nat.le_refl _
    | accepts outstanding acc => exact @ServerLog.accepted_step regex s.log .accept
    | acceptsNull outstanding acc => exact @ServerLog.accepted_step regex s.log .accept
    | server other => exact s.log.accepted_step _
    | stops running acc => exact @ServerLog.accepted_step regex s.log .stopServer
    | stopsNull running acc => exact Nat.le_refl _

end Lifecycle

/-- What has happened since the server was stopped for the first time, or ever if it was
not: only the first `stopServer` does anything. -/
def sinceStop (es : List LifecycleEvent) : List LifecycleEvent :=
  if .stopServer ∈ es then (es.dropWhile (· != .stopServer)).tail else es

theorem sinceStop_stopped {d : List LifecycleEvent} (h : .stopServer ∈ d) (e : LifecycleEvent) :
    sinceStop (d ++ [e]) = sinceStop d ++ [e] := by
  have hne : d.dropWhile (· != .stopServer) ≠ [] := by
    intro hnil
    have hall := List.dropWhile_eq_nil_iff.mp hnil _ h
    simp at hall
  rw [sinceStop,sinceStop,if_pos h,if_pos (by simp [h]),List.dropWhile_append,
    if_neg (by simpa using hne),List.tail_append_of_ne_nil hne]

theorem sinceStop_running {d : List LifecycleEvent} (h : .stopServer ∉ d) {e : LifecycleEvent}
    (he : e ≠ .stopServer) : sinceStop (d ++ [e]) = d ++ [e] :=
  if_neg (by simp [h,Ne.symm he])

theorem sinceStop_first {d : List LifecycleEvent} (h : .stopServer ∉ d) :
    sinceStop (d ++ [.stopServer]) = [] := by
  have hall : ∀ a ∈ d, (a != LifecycleEvent.stopServer) = true := by
    intro a ha
    rw [bne_iff_ne]
    rintro rfl
    exact h ha
  rw [sinceStop,if_pos (by simp),List.dropWhile_append,
    if_pos (by simpa using List.dropWhile_eq_nil_iff.mpr hall)]
  simp

theorem started_other {d : List LifecycleEvent} {e : LifecycleEvent}
    (start : e ≠ .serverStart none) (stop : e = .stopServer → .stopServer ∈ d) :
    (.serverStart none ∈ sinceStop (d ++ [e]) ↔ .serverStart none ∈ sinceStop d) ∧
      (.stopServer ∈ d ++ [e] ↔ .stopServer ∈ d) := by
  by_cases hd : .stopServer ∈ d
  · rw [sinceStop_stopped hd]
    simp [hd,Ne.symm start]
  · have he : e ≠ .stopServer := fun he => hd (stop he)
    rw [sinceStop_running hd he,sinceStop,if_neg hd]
    simp [hd,Ne.symm start,Ne.symm he]

section Log

variable {regex : RegexCompiler} {l : ServerLog}

variable (regex) in
theorem ServerLog.Books.step_quiet (h : l.Books) (few : l.Few) {e : ServerEvent}
    (accept : e ≠ .accept) (stop : e ≠ .stopServer) :
    (l.step regex e).isStoped = l.isStoped ∧
      (l.server.connections = [] → (l.step regex e).server.connections = []) := by
  have hstep := l.step_cases regex e
  generalize l.step regex e = l' at hstep
  cases hstep with
  | same => exact ⟨rfl,id⟩
  | accept => exact absurd rfl accept
  | call calls => exact ⟨rfl,fun hnil => (calls.keeps regex).connections.trans hnil⟩
  | @close k i sender =>
    have hi := List.mem_of_getElem? sender
    obtain ⟨l',hr,books,haccepted,hstoped,hclosed⟩ := h.close few hi
    rw [hr]
    refine ⟨hstoped,fun hnil => ?_⟩
    -- the list is empty because every connection had been closed
    rw [h.connections,List.filter_eq_nil_iff] at hnil
    rw [final_ok,books.connections,haccepted,List.filter_eq_nil_iff]
    intro j hj
    have hj' : j.socket ∈ l.server.closed := by simpa using hnil j hj
    rw [hclosed]
    split
    · simpa using hj'
    · simp [hj']
  | stop running => exact absurd rfl stop

theorem ServerLog.Books.stopped (h : l.Books) (few : l.Few) (running : l.isStoped = false) :
    (final (ServerLog.stopServer l)).Books ∧ (final (ServerLog.stopServer l)).isStoped = true ∧
      (final (ServerLog.stopServer l)).server.connections = [] := by
  obtain ⟨l₁,hall,-⟩ := h.closeAll few l.server.connections
    (fun i hi => (h.mem_connections.mp hi).1)
  obtain ⟨l₂,hstop,books⟩ := h.stopServer few
  have hfinal : final (ServerLog.stopServer l) =
      { l₁ with server := { l₁.server with connections := [] }, isStoped := true } := by
    simp [ServerLog.stopServer,running,hall]
  refine ⟨?_,?_,?_⟩
  · rw [hstop]
    exact books
  · rw [hfinal]
  · rw [hfinal]

end Log

namespace Lifecycle

variable {regex : RegexCompiler} {s s' : Lifecycle} {d : List LifecycleEvent} {e : LifecycleEvent}

structure Standing (d : List LifecycleEvent) (s : Lifecycle) : Prop where
  books : s.log.Books
  stoped : s.log.isStoped = true ↔ .stopServer ∈ d
  acc : s.acc.isSome ↔ .serverStart none ∈ sinceStop d
  chain : s.accepts.length+s.ended = s.acceptors
  quiet : .stopServer ∈ d → s.acc = none → s.log.server.connections = []

theorem Standing.start (cache : ReCache) : (start cache).Standing [] where
  books := .start cache
  stoped := by simp [Lifecycle.start,ServerLog.start]
  acc := by simp [Lifecycle.start,sinceStop]
  chain := rfl
  quiet h := by cases h

theorem Standing.step (h : s.Standing d) (hstep : Step regex s e s') (alive : s'.crashed = false)
    (late : s.LateRefused regex e) (few₀ : s.log.Few) (few : s'.log.Few) :
    s'.Standing (d ++ [e]) := by
  cases hstep with
  | none harmless stop accept =>
    obtain ⟨hstart,hstop⟩ := started_other harmless fun he => h.stoped.mp (stop he)
    exact ⟨h.books,h.stoped.trans hstop.symm,h.acc.trans hstart.symm,h.chain,
      fun hd => h.quiet (hstop.mp hd)⟩
  | starts =>
    have hstart : LifecycleEvent.serverStart none ∈ sinceStop (d ++ [.serverStart none]) := by
      by_cases hd : .stopServer ∈ d
      · simp [sinceStop_stopped hd]
      · simp [sinceStop_running hd]
    refine ⟨h.books,h.stoped.trans (by simp),by simp [hstart],?_,fun _ hacc => by cases hacc⟩
    have hchain := h.chain
    simp only [List.length_append,List.length_singleton]
    omega
  | @ends k result outstanding error =>
    obtain ⟨hstart,hstop⟩ :=
      started_other (d := d) (e := .accept k result) (by simp) (by simp)
    refine ⟨h.books,h.stoped.trans hstop.symm,h.acc.trans hstart.symm,?_,
      fun hd => h.quiet (hstop.mp hd)⟩
    have hchain := h.chain
    simp only [List.length_eraseIdx,if_pos outstanding]
    omega
  | @accepts k a outstanding acc =>
    obtain ⟨hstart,hstop⟩ :=
      started_other (d := d) (e := .accept k .accepted) (by simp) (by simp)
    have hbooks : (s.log.step regex .accept).Books :=
      h.books.step few few₀ (by simp [ServerLog.sender])
    refine ⟨hbooks,h.stoped.trans hstop.symm,h.acc.trans hstart.symm,?_,fun _ hacc => ?_⟩
    · have hchain := h.chain
      simp only [List.length_append,List.length_eraseIdx,if_pos outstanding,List.length_singleton]
      omega
    · rw [acc] at hacc
      cases hacc
  | acceptsNull outstanding acc => cases alive
  | @server e other =>
    obtain ⟨hstart,hstop⟩ := started_other (d := d) (e := .server e) (by simp) (by simp)
    obtain ⟨hstoped,hquiet⟩ := h.books.step_quiet regex few₀ other.1 other.2
    refine ⟨h.books.step_late few few₀ late,?_,h.acc.trans hstart.symm,h.chain,
      fun hd hacc => hquiet (h.quiet (hstop.mp hd) hacc)⟩
    rw [hstop,← h.stoped,hstoped]
  | stops running acc =>
    have hd : .stopServer ∉ d := fun hd => by
      rw [h.stoped.mpr hd] at running
      cases running
    obtain ⟨books,hstoped,hnil⟩ := h.books.stopped few₀ running
    refine ⟨books,by simp [hstoped],by simp [sinceStop_first hd],h.chain,fun _ _ => hnil⟩
  | stopsNull running acc => cases alive

/-- The call finds an acceptor, as far as the calls before it tell: the server has been
started before it is stopped for the first time, and no accept completes with a
connection between that and the next start. -/
def Timely (regex : RegexCompiler) (cache : ReCache) (d : List LifecycleEvent) :
    LifecycleEvent → Prop
  | .stopServer => .stopServer ∈ d ∨ .serverStart none ∈ d
  | .accept k .accepted =>
    k < ((start cache).run regex d).accepts.length → .serverStart none ∈ sinceStop d
  | _ => True

theorem Standing.timely_iff (h : s.Standing d) (hstep : Step regex s e s')
    (alive : s.crashed = false) {cache : ReCache} (run : s = (Lifecycle.start cache).run regex d) :
    s'.crashed = false ↔ Timely regex cache d e := by
  cases hstep with
  | none harmless stop accept =>
    refine iff_of_true alive ?_
    unfold Timely
    split
    · exact .inl (h.stoped.mp (stop rfl))
    · rw [← run]
      exact fun hk => absurd (accept _ rfl) (by omega)
    · trivial
  | starts => exact iff_of_true alive trivial
  | @ends k result outstanding error =>
    refine iff_of_true alive ?_
    cases result with
    | accepted => exact absurd rfl error
    | aborted => trivial
    | failed message => trivial
  | accepts outstanding acc =>
    exact iff_of_true alive fun _ => h.acc.mp (by simp [acc])
  | acceptsNull outstanding acc =>
    refine iff_of_false (by simp) fun ht => ?_
    have hacc := h.acc.mpr (ht (run ▸ outstanding))
    simp [acc] at hacc
  | server other => exact iff_of_true alive trivial
  | stops running acc =>
    refine iff_of_true alive ?_
    by_cases hd : .stopServer ∈ d
    · exact .inl hd
    · have hstart := h.acc.mp (by simp [acc])
      rw [sinceStop,if_neg hd] at hstart
      exact .inr hstart
  | stopsNull running acc =>
    refine iff_of_false (by simp) fun ht => ?_
    have hd : .stopServer ∉ d := fun hd => by
      rw [h.stoped.mpr hd] at running
      cases running
    have hstart : LifecycleEvent.serverStart none ∈ sinceStop d := by
      rw [sinceStop,if_neg hd]
      exact ht.resolve_left hd
    have hacc := h.acc.mpr hstart
    simp [acc] at hacc

structure Told (regex : RegexCompiler) (cache : ReCache) (d : List LifecycleEvent) (s : Lifecycle) :
    Prop where
  standing : s.crashed = false → s.Standing d
  alive : s.crashed = false ↔ ∀ pre e post, d = pre ++ e :: post → Timely regex cache pre e

theorem Told.step {cache : ReCache} (h : Told regex cache d s) (run : s = (start cache).run regex d)
    (late : s.LateRefused regex e) (few₀ : s.log.Few) (few : (s.step regex e).log.Few) :
    Told regex cache (d ++ [e]) (s.step regex e) := by
  cases hc : s.crashed with
  | true =>
    rw [step_crashed hc]
    refine ⟨fun halive => absurd (hc.symm.trans halive) (by simp),?_⟩
    rw [Runs.places_concat,← h.alive,hc]
    simp
  | false =>
    have hstep := step_cases regex hc e
    have htimely := (h.standing hc).timely_iff hstep hc run
    refine ⟨fun halive => (h.standing hc).step hstep halive late few₀ few,?_⟩
    rw [Runs.places_concat,← h.alive,htimely,hc]
    simp

theorem run_told (cache : ReCache) {es : List LifecycleEvent}
    (refused : Runs.Along (step regex) (LateRefused regex) (start cache) es)
    (few : ((start cache).run regex es).log.Few) :
    Told regex cache es ((start cache).run regex es) := by
  have hrun : (start cache).run regex es = (start cache).run regex es ∧
      (((start cache).run regex es).log.Few →
        Told regex cache es ((start cache).run regex es)) := by
    refine refused.history (d := []) (P := fun d s => s = (start cache).run regex d ∧
      (s.log.Few → Told regex cache d s)) (fun d s e h hp => ?_) ⟨rfl,fun _ => ?_⟩
    · obtain ⟨hrun,htold⟩ := h
      refine ⟨by simp [hrun,Lifecycle.run],fun few' => ?_⟩
      have few₀ : s.log.Few := Nat.lt_of_le_of_lt (accepted_le s e) few'
      exact (htold few₀).step hrun hp few₀ few'
    · exact ⟨fun _ => .start cache,by simp [Lifecycle.start]⟩
  exact hrun.2 few

end Lifecycle

/-- A server crashes on its acceptor only if it is stopped before it was ever started, or
if an accept completes with a connection between its first stop and its next start. As
long as it has not crashed, the accepts outstanding and those that ended without another
are together as many as the starts; and between the first stop and the next start there is
no connection, no user but the server, and each connection was disconnected once. -/
theorem server_lifecycle (cache : ReCache) (regex : RegexCompiler) (es : List LifecycleEvent)
    {s : Lifecycle} (run : s = (Lifecycle.start cache).run regex es)
    (refused : Runs.Along (Lifecycle.step regex) (Lifecycle.LateRefused regex)
      (Lifecycle.start cache) es) (few : s.log.accepted.length < 2^31-1) :
    (s.crashed = false ↔
      ∀ pre e post, es = pre ++ e :: post → Lifecycle.Timely regex cache pre e) ∧
    (s.crashed = false → s.accepts.length+s.ended = s.acceptors ∧
      (.stopServer ∈ es → .serverStart none ∉ sinceStop es →
        s.acc = none ∧ s.log.server.connections = [] ∧
        (∀ id, s.log.server.users.exists id = true ↔ id = ServerID) ∧
        (∀ q c, s.log.server.node.listener q c ≠ none → c = ServerID) ∧
        ∀ i ∈ s.log.accepted, s.log.disconnected.count i = 1)) := by
  have htold : Lifecycle.Told regex cache es s :=
    run ▸ Lifecycle.run_told cache refused (run ▸ few)
  refine ⟨htold.alive,fun halive => ?_⟩
  have h := htold.standing halive
  refine ⟨h.chain,fun hstop hstart => ?_⟩
  have hacc : s.acc = none := by
    rw [← h.acc] at hstart
    simpa using hstart
  have hnil := h.quiet hstop hacc
  have husers : ∀ id, s.log.server.users.exists id = true ↔ id = ServerID := by
    intro id
    rw [h.books.users,hnil]
    simp
  refine ⟨hacc,hnil,husers,fun q c hc => (husers c).mp (h.books.listeners q c hc),fun i hi => ?_⟩
  have hclosed : i.socket ∈ s.log.server.closed := by
    by_contra hopen
    have hmem := h.books.mem_connections.mpr ⟨hi,hopen⟩
    rw [hnil] at hmem
    cases hmem
  rw [h.books.once,if_pos ⟨hi,hclosed⟩]

/-- Two clients come; the server is stopped, and the accept that was outstanding ends. -/
def startedAndStopped : List LifecycleEvent :=
  [.serverStart none,.accept 0 .accepted,.accept 0 .accepted,.server (.error 0),.stopServer,
    .accept 0 .aborted,.server (.error 1),.stopServer]

theorem server_lifecycle_stopped :
    ((Lifecycle.start ∅).run literal startedAndStopped).log.accepted.length = 2 ∧
      ((Lifecycle.start ∅).run literal startedAndStopped).log.server.connections = [] ∧
      ∀ i ∈ ((Lifecycle.start ∅).run literal startedAndStopped).log.accepted,
        ((Lifecycle.start ∅).run literal startedAndStopped).log.disconnected.count i = 1 := by
  have hacc : ((Lifecycle.start ∅).run literal startedAndStopped).log.accepted.length = 2 := by
    decide +kernel
  have hrefused : Runs.Along (Lifecycle.step literal) (Lifecycle.LateRefused literal)
      (Lifecycle.start ∅) startedAndStopped :=
    ⟨trivial,trivial,trivial,trivial,trivial,trivial,trivial,trivial,trivial⟩
  have hlife := server_lifecycle ∅ literal startedAndStopped rfl hrefused
    (by rw [hacc]; decide)
  have hquiet := (hlife.2 (by decide +kernel)).2 (by decide) (by decide)
  exact ⟨hacc,hquiet.2.1,hquiet.2.2.2.2⟩

end Dqueue
