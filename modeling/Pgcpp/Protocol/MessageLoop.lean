import Mathlib.Data.List.Basic

/-!
# The message loop

`PostgresMain` answers every message as it comes.  An error in the extended query
protocol is reported and forgotten: nothing makes the loop skip to the next Sync.
-/

namespace Pgcpp.Protocol

open Function

/-- What ends a handler early: an error that `PG_CATCH` catches, another exception, or
the use of a prepared statement that was deleted. -/
inductive Thrown where
  | pgException (text : String)
  | other
  | deleted

/-- A frontend message.  Reading the fields of an unreadable one throws. -/
inductive Request where
  | query (text : String)
  | parse (stmtName query : String) (paramTypes : List Nat)
  | bind (portalName stmtName : String) (params : List (Option String))
  | describe (statement : Bool) (name : String)
  | execute (portalName : String)
  | sync
  | flush
  | close (statement : Bool) (name : String)
  | terminate
  | unreadable (extended : Bool) (thrown : Thrown)
  | unknown

/-- Parse, Bind, Describe and Execute. -/
def Request.IsExtended : Request → Prop
  | .parse .. | .bind .. | .describe .. | .execute _ => True
  | .unreadable extended _ => extended
  | _ => False

/-- The messages that are never answered. -/
def Request.IsSilent : Request → Prop
  | .flush | .terminate | .unknown => True
  | _ => False

/-- Query and Sync, which ReadyForQuery answers. -/
def Request.endsCycle : Request → Bool
  | .query _ | .sync => true
  | _ => false

inductive TransactionStatus where
  | idle
  | inTransaction
  | inFailedTransaction
  deriving DecidableEq

inductive Reply (Output : Type) where
  | output (output : Output)
  | rowDescription (fields : Output)
  | parameterDescription (types : List Nat)
  | noData
  | parseComplete
  | bindComplete
  | closeComplete
  | commandComplete (tag : String)
  | emptyQueryResponse
  | errorResponse (text : String)
  | readyForQuery (status : TransactionStatus)

def Reply.isReadyForQuery : Reply Output → Bool
  | .readyForQuery _ => true
  | _ => false

structure PreparedStatement (Query : Type) where
  queries : List Query
  paramTypes : List Nat
  hasResults : Bool

/-- `stmt` points to a prepared statement. -/
structure Portal where
  stmt : Nat
  params : List (Option String)

/-- The prepared statements by their address, `none` when they are deleted, and the
tables of the backend. -/
structure Session (World Query : Type) where
  heap : List (Option (PreparedStatement Query))
  statements : String → Option Nat
  portals : String → Option Portal
  world : World

/-- A statement that was run, with what it sent and its result or exception. -/
structure Effect (World Output Result : Type) where
  output : List Output
  world : World
  result : Except Thrown Result

/-- What the handlers call.  `parse` is the parser with the analysis and the rewriter;
`runStmt` has no command tag when the analysis gives no query. -/
structure Engine (World Query RawStmt Output : Type) where
  rawParser : String → Except Thrown (List RawStmt)
  parse : World → String → Except Thrown (List Query)
  isSelect : Query → Bool
  rowDescription : Query → Except Thrown Output
  execute : World → PreparedStatement Query → List (Option String) → Query →
    Effect World Output String
  runStmt : World → RawStmt → Effect World Output (Option String)
  abortCurrentTransaction : World → World × Option Thrown
  transactionStatus : World → TransactionStatus

/-- What a handler leaves; what it throws goes to the loop. -/
structure Handled (World Query Output : Type) where
  replies : List (Reply Output)
  session : Session World Query
  thrown : Option Thrown := none

/-- The handler sent something or left an exception to the loop. -/
def Handled.Answers (handled : Handled World Query Output) : Prop :=
  handled.thrown = none → handled.replies ≠ []

namespace Engine

variable {World Query RawStmt Output : Type} (engine : Engine World Query RawStmt Output)
  (session : Session World Query)

/-- `PG_CATCH` reports an error; another exception passes. -/
def pgCatch (replies : List (Reply Output)) : Thrown → Handled World Query Output
  | .pgException text => { replies := replies ++ [.errorResponse text], session }
  | thrown => { replies, session, thrown := some thrown }

def deleteStatement (name : String) : Session World Query :=
  match session.statements name with
  | none => session
  | some stmt =>
    { session with
      heap := session.heap.set stmt none, statements := update session.statements name none }

def handleParse (stmtName query : String) (paramTypes : List Nat) : Handled World Query Output :=
  match engine.parse session.world query with
  | .error thrown => pgCatch session [] thrown
  | .ok queries =>
    let session := deleteStatement session stmtName
    let stmt := { queries, paramTypes, hasResults := queries.head?.any engine.isSelect }
    { replies := [.parseComplete], session := { session with
        heap := session.heap ++ [some stmt]
        statements := update session.statements stmtName (some session.heap.length) } }

def noStatement (name : String) : String := "prepared statement \"" ++ name ++ "\" does not exist"

/-- The text is cut to the size of its buffer. -/
def noPortal (name : String) : String :=
  String.ofList (("portal \"" ++ name ++ "\" does not exist").toList.take 255)

def handleBind (portalName stmtName : String)
    (params : List (Option String)) : Handled World Query Output :=
  match session.statements stmtName with
  | none => { replies := [.errorResponse (noStatement stmtName)], session }
  | some stmt =>
    { replies := [.bindComplete], session := { session with
        portals := update session.portals portalName (some { stmt, params }) } }

/-- A prepared statement is read through a pointer. -/
def deref (stmt : Nat) (use : PreparedStatement Query → Handled World Query Output) :
    Handled World Query Output :=
  match session.heap[stmt]? with
  | some (some stmt) => use stmt
  | _ => { replies := [], session, thrown := some .deleted }

/-- RowDescription or NoData, behind what was sent. -/
def describeStmt (replies : List (Reply Output)) (stmt : PreparedStatement Query) :
    Handled World Query Output :=
  match stmt.hasResults, stmt.queries with
  | true, query :: _ =>
    match engine.rowDescription query with
    | .error thrown => pgCatch session replies thrown
    | .ok fields => { replies := replies ++ [.rowDescription fields], session }
  | _, _ => { replies := replies ++ [.noData], session }

def handleDescribe (statement : Bool) (name : String) : Handled World Query Output :=
  if statement then
    match session.statements name with
    | none => { replies := [.errorResponse (noStatement name)], session }
    | some stmt => deref session stmt fun stmt =>
        engine.describeStmt session [.parameterDescription stmt.paramTypes] stmt
  else
    match session.portals name with
    | none => { replies := [.errorResponse (noPortal name)], session }
    | some portal => deref session portal.stmt (engine.describeStmt session [])

/-- An error is reported and the transaction aborted; another exception passes. -/
def failWith (output : List Output) (world : World) : Thrown → Handled World Query Output
  | .pgException text =>
    let aborted := engine.abortCurrentTransaction world
    { replies := output.map .output ++ [.errorResponse text]
      session := { session with world := aborted.1 }, thrown := aborted.2 }
  | thrown =>
    { replies := output.map .output, session := { session with world }, thrown := some thrown }

def handleExecute (portalName : String) : Handled World Query Output :=
  match session.portals portalName with
  | none => engine.failWith session [] session.world (.pgException (noPortal portalName))
  | some portal => deref session portal.stmt fun stmt =>
    match stmt.queries with
    | [] =>
      engine.failWith session [] session.world (.pgException "portal has no query to execute")
    | query :: _ =>
      let effect := engine.execute session.world stmt portal.params query
      match effect.result with
      | .error thrown => engine.failWith session effect.output effect.world thrown
      | .ok tag =>
        { replies := effect.output.map .output ++ [.commandComplete tag]
          session := { session with world := effect.world } }

def ready : Reply Output := .readyForQuery (engine.transactionStatus session.world)

/-- ReadyForQuery follows unless an exception is on its way to the loop. -/
def thenReady (handled : Handled World Query Output) : Handled World Query Output :=
  match handled.thrown with
  | none => { handled with replies := handled.replies ++ [engine.ready handled.session] }
  | some _ => handled

/-- The loop of `exec_simple_query` over the statements. -/
def runStmts (session : Session World Query) : List RawStmt → Handled World Query Output
  | [] => engine.thenReady { replies := [], session }
  | stmt :: rest =>
    let effect := engine.runStmt session.world stmt
    match effect.result with
    | .error thrown => engine.thenReady (engine.failWith session effect.output effect.world thrown)
    | .ok tag =>
      let later := runStmts { session with world := effect.world } rest
      { later with
        replies := effect.output.map .output ++ tag.toList.map .commandComplete ++ later.replies }

def execSimpleQuery (query : String) : Handled World Query Output :=
  if query.toList.all (· ∈ [' ', '\t', '\n', '\r', ';']) then
    engine.thenReady { replies := [.emptyQueryResponse], session }
  else
    match engine.rawParser query with
    | .error thrown => engine.thenReady (engine.failWith session [] session.world thrown)
    | .ok stmts => engine.runStmts session stmts

def handleClose (statement : Bool) (name : String) : Handled World Query Output :=
  { replies := [.closeComplete], session := if statement then deleteStatement session name
      else { session with portals := update session.portals name none } }

def handle : Request → Handled World Query Output
  | .query text => engine.execSimpleQuery session text
  | .parse stmtName query paramTypes => engine.handleParse session stmtName query paramTypes
  | .bind portalName stmtName params => handleBind session portalName stmtName params
  | .describe statement name => engine.handleDescribe session statement name
  | .execute portalName => engine.handleExecute session portalName
  | .sync => { replies := [engine.ready session], session }
  | .close statement name => handleClose session statement name
  | .unreadable _ thrown => { replies := [], session, thrown := some thrown }
  | .flush | .terminate | .unknown => { replies := [], session }

/-- A message, and whether an interrupt is pending when it was read. -/
structure Incoming where
  interrupted : Bool
  request : Request

end Engine

/-- A message with the session before it, the replies and the session behind it, and
the exception that left `PostgresMain`. -/
structure Step (World Query Output : Type) where
  session : Session World Query
  incoming : Engine.Incoming
  replies : List (Reply Output)
  after : Session World Query
  escaped : Option Thrown

namespace Step

variable {World Query Output : Type}

/-- The loop reads no other message. -/
def isLast (step : Step World Query Output) : Bool :=
  step.escaped.isSome || !step.incoming.interrupted &&
    match step.incoming.request with
    | .terminate => true
    | _ => false

/-- A message of the extended query protocol raised an error. -/
def Fails (step : Step World Query Output) : Prop :=
  step.incoming.request.IsExtended ∧ ∃ text, .errorResponse text ∈ step.replies

/-- The message changes nothing and gets no reply. -/
def Quiet (step : Step World Query Output) : Prop := step.after = step.session ∧ step.replies = []

/-- The step comes after a failure and before the next Sync. -/
def AwaitsSync (steps : List (Step World Query Output)) (step : Step World Query Output) : Prop :=
  ∃ before failing between rest,
    steps = before ++ failing :: (between ++ step :: rest) ∧ failing.Fails ∧
      ∀ skipped ∈ step :: between, skipped.incoming.request ≠ .sync

/-- After a failure nothing changes and nothing is sent until the next Sync, and each
Sync gets one ReadyForQuery. -/
def SkipToSync (steps : List (Step World Query Output)) : Prop :=
  (∀ step, AwaitsSync steps step → step.Quiet) ∧
    ∀ step ∈ steps, step.incoming.request = .sync →
      step.replies.countP Reply.isReadyForQuery = 1

end Step

namespace Engine

variable {World Query RawStmt Output : Type} (engine : Engine World Query RawStmt Output)

variable (session : Session World Query)

/-- `PG_CATCH` of `PostgresMain`. -/
def settle (incoming : Incoming) (handled : Handled World Query Output) : Step World Query Output :=
  let step := { session, incoming, replies := handled.replies, after := handled.session
                escaped := none }
  match handled.thrown with
  | none => step
  | some (.pgException text) =>
    { step with replies := handled.replies ++ [.errorResponse text, engine.ready handled.session] }
  | thrown => { step with escaped := thrown }

/-- One pass of the loop of `PostgresMain`. -/
def dispatch (incoming : Incoming) : Step World Query Output :=
  engine.settle session incoming
    (if incoming.interrupted then
      { replies := [], session
        thrown := some (.pgException "canceling statement due to user request") }
    else engine.handle session incoming.request)

/-- The messages that the loop handles. -/
def steps (session : Session World Query) : List Incoming → List (Step World Query Output)
  | [] => []
  | incoming :: rest =>
    let step := engine.dispatch session incoming
    step :: if step.isLast then [] else steps step.after rest

variable {session : Session World Query}

theorem dispatch_session : (engine.dispatch session incoming).session = session ∧
    (engine.dispatch session incoming).incoming = incoming := by
  rw [dispatch, settle]
  split <;> exact ⟨rfl, rfl⟩

theorem dispatched_of_mem (mem : step ∈ engine.steps session messages) :
    step = engine.dispatch step.session step.incoming := by
  induction messages generalizing session with
  | nil => nomatch mem
  | cons incoming _ ih =>
    rcases List.mem_cons.1 mem with rfl | later
    · rw [engine.dispatch_session.1, engine.dispatch_session.2]
    split at later
    · nomatch later
    · exact ih later

/-- There is no ReadyForQuery among the replies. -/
def Plain (replies : List (Reply Output)) : Prop := replies.filter Reply.isReadyForQuery = []

/-- ReadyForQuery comes once, at the end, with the status of the session. -/
def ReadyLast (session : Session World Query) (replies : List (Reply Output)) : Prop :=
  replies.filter Reply.isReadyForQuery = [engine.ready session] ∧
    replies.getLast? = some (engine.ready session)

/-- The handler has sent ReadyForQuery, or leaves an exception to the loop. -/
def Finishes (handled : Handled World Query Output) : Prop :=
  match handled.thrown with
  | none => engine.ReadyLast handled.session handled.replies
  | some _ => Plain handled.replies

theorem thenReady_finishes (plain : Plain handled.replies) :
    engine.Finishes (engine.thenReady handled) := by
  unfold Plain at plain
  unfold Finishes thenReady
  cases thrown : handled.thrown with
  | none => simp [ReadyLast, plain, ready, Reply.isReadyForQuery]
  | some _ =>
    rw [thrown]
    exact plain

theorem failWith_plain : Plain (engine.failWith session output world thrown).replies := by
  cases thrown <;> simp [Plain, failWith, Reply.isReadyForQuery]

theorem runStmts_finishes : engine.Finishes (engine.runStmts session stmts) := by
  induction stmts generalizing session with
  | nil => exact engine.thenReady_finishes rfl
  | cons stmt rest ih =>
    rw [runStmts]
    split
    · exact engine.thenReady_finishes engine.failWith_plain
    have later := @ih { session with world := (engine.runStmt session.world stmt).world }
    unfold Finishes ReadyLast Plain at later ⊢
    generalize engine.runStmts _ rest = handled at later ⊢
    cases thrown : handled.thrown with
    | none | some _ =>
      simp only [thrown] at later
      simp [later, List.filter_map, Function.comp_def, Reply.isReadyForQuery]

theorem Finishes.answers (finishes : engine.Finishes handled) : handled.Answers := by
  intro none empty
  simp [Finishes, none, ReadyLast, empty] at finishes

/-- Query and Sync get ReadyForQuery, or an exception goes to the loop. -/
theorem handle_ready : bif request.endsCycle then engine.Finishes (engine.handle session request)
    else Plain (engine.handle session request).replies := by
  cases request with
  | query _ =>
    simp only [Request.endsCycle, handle, execSimpleQuery, cond_true]
    split
    · exact engine.thenReady_finishes rfl
    split
    · exact engine.thenReady_finishes engine.failWith_plain
    · exact engine.runStmts_finishes
  | sync => exact ⟨rfl, rfl⟩
  | parse | bind | describe | execute =>
    simp only [Request.endsCycle, handle, handleParse, handleBind, handleDescribe, deref,
      describeStmt, handleExecute, pgCatch, cond_false]
    repeat' split
    all_goals first
      | exact engine.failWith_plain
      | simp [Plain, Reply.isReadyForQuery]
  | _ => rfl

theorem pgCatch_answers :
    (pgCatch session replies thrown : Handled World Query Output).Answers := by
  cases thrown <;> simp [Handled.Answers, pgCatch]

theorem failWith_answers : (engine.failWith session output world thrown).Answers := by
  cases thrown <;> simp [Handled.Answers, failWith]

/-- Every handler but those of the silent messages answers. -/
theorem handle_answers (spoken : ¬request.IsSilent) : (engine.handle session request).Answers := by
  cases request with
  | query text => exact Finishes.answers engine (@handle_ready _ _ _ _ engine session (.query text))
  | parse | bind | describe | execute =>
    simp only [handle, handleParse, handleBind, handleDescribe, deref, describeStmt, handleExecute]
    repeat' split
    all_goals first
      | exact pgCatch_answers
      | exact engine.failWith_answers
      | simp [Handled.Answers]
  | close | sync | unreadable => simp [Handled.Answers, handle, handleClose]
  | flush | terminate | unknown => exact absurd trivial spoken

theorem quiet_iff (stays : (engine.dispatch session incoming).escaped = none) :
    (engine.dispatch session incoming).Quiet ↔
      incoming.interrupted = false ∧ incoming.request.IsSilent := by
  rw [dispatch] at stays ⊢
  cases interrupted : incoming.interrupted with
  | true => simp [settle, Step.Quiet]
  | false =>
    rw [interrupted] at stays
    have answers : ¬incoming.request.IsSilent → (engine.handle session incoming.request).Answers :=
      engine.handle_answers
    constructor
    · intro quiet
      refine ⟨rfl, ?_⟩
      by_contra spoken
      simp only [Bool.false_eq_true, if_false, settle] at stays quiet
      split at quiet
      next none => exact answers spoken none quiet.2
      · simp [Step.Quiet] at quiet
      next absent _ =>
        simp only at stays
        exact absent stays
    · rintro ⟨-, silent⟩
      cases request : incoming.request with
      | flush | terminate | unknown => exact ⟨rfl, rfl⟩
      | _ => simp [request, Request.IsSilent] at silent

theorem sync_answer (mem : step ∈ engine.steps session messages)
    (sync : step.incoming.request = .sync) : step.replies.countP Reply.isReadyForQuery = 1 := by
  rw [engine.dispatched_of_mem mem, dispatch, sync]
  cases step.incoming.interrupted <;> rfl

/-- As long as no exception leaves the loop and no deleted statement is used, the
messages up to the next Sync are skipped exactly when they are never answered. -/
theorem skips_to_sync_iff (engine : Engine World Query RawStmt Output)
    (session : Session World Query) (messages : List Incoming)
    (stays : ∀ step ∈ engine.steps session messages, step.escaped = none) :
    Step.SkipToSync (engine.steps session messages) ↔
      ∀ step, Step.AwaitsSync (engine.steps session messages) step →
        step.incoming.interrupted = false ∧ step.incoming.request.IsSilent := by
  rw [Step.SkipToSync, and_iff_left fun _ => engine.sync_answer]
  apply forall₂_congr
  rintro step ⟨_, _, _, _, split, -⟩
  have member : step ∈ engine.steps session messages := by simp [split]
  have dispatched := engine.dispatched_of_mem member
  have inLoop := stays step member
  rw [dispatched] at inLoop
  rw [← engine.quiet_iff inLoop, ← dispatched]

def idle : Engine Unit Unit Unit Unit where
  rawParser _ := .ok []
  parse _ _ := .ok []
  isSelect _ := false
  rowDescription _ := .ok ()
  execute _ _ _ _ := { output := [], world := (), result := .ok "" }
  runStmt _ _ := { output := [], world := (), result := .ok none }
  abortCurrentTransaction _ := ((), none)
  transactionStatus _ := .idle

/-- Execute of a portal that does not exist, then Parse. -/
def parseAfterError : List (Step Unit Unit Unit) :=
  idle.steps ⟨[], fun _ => none, fun _ => none, ()⟩
    [⟨false, .execute ""⟩, ⟨false, .parse "" "" []⟩]

theorem parse_after_error_not_skipped : Step.SkipToSync parseAfterError ↔
    ∀ step, Step.AwaitsSync parseAfterError step →
      step.incoming.interrupted = false ∧ step.incoming.request.IsSilent :=
  skips_to_sync_iff idle _ _ (by
    rintro step (_ | ⟨_, _ | ⟨_, nothing⟩⟩)
    · rfl
    · rfl
    · nomatch nothing)

/-- The statement is prepared. -/
theorem parse_answered_after_error : ∃ step, Step.AwaitsSync parseAfterError step ∧
    step.replies = [.parseComplete] ∧ (step.after.statements "").isSome := by
  refine ⟨_, ⟨[], _, [], [], rfl, ?_, ?_⟩, rfl, rfl⟩
  · exact ⟨trivial, _, List.mem_singleton.2 rfl⟩
  · simp [dispatch_session]

end Engine

end Pgcpp.Protocol
