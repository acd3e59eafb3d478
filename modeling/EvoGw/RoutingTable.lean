import EvoGw.GatewayProgress
import EvoGw.LockedViews
import EvoGw.ConnectionTable

/-!
# `CONNECTIONS` as an atomic table

A handler changes `CONNECTIONS` inside one section of its mutex, and the close
handler looks for its key in the same section in which it deletes it. Seen from
outside, the table is therefore changed by three whole operations only: an opened
socket is entered as a key, a serial is mapped to a socket, and the first key of a
socket is dropped. In every interleaving the table is the result of such operations
in some order, at most one for each handler.

So a route is lost only by a close event of its own socket or by a message with
its own serial: what other devices do in the meantime does not matter.
-/
namespace EvoGw.RoutingTable
open ThreadPrograms ThreadPools PoolTraces LockDiscipline LockedViews PoolContracts
open GatewayCalls JsonValues InsertionHash WebSocketHandler ServerRoute GatewayPool
open GatewayProgress SocketTurns
open DevicesSender (IsSend uses_lift uses_parse)

abbrev Table := Hash ConnKey (Option Sock)

/-- `hash.delete(hash.key(ws))`, as one operation. -/
def drop (table : Table) (ws : Option Sock) : Table :=
  match table.keyOf ws with
  | some key => table.erase key
  | none => table

/-- What a call tells about the table. -/
def answers (table : Table) : (c : Call) → c.Resp → Prop
  | .connKey ws, key => key = table.keyOf ws
  | _, _ => True

def effect (table : Table) : Call → Table
  | .connSet key ws => table.insert key ws
  | .connDelete (some key) => table.erase key
  | _ => table

theorem effect_connDelete (table : Table) (ws : Option Sock) :
    effect table (.connDelete (table.keyOf ws)) = drop table ws := by
  unfold drop
  cases table.keyOf ws <;> rfl

def routes (rt : Runtime) : LockedView (gateway rt) Table where
  mutex := .connections
  view := World.connections
  answers := answers
  effect := effect
  answered := by
    intro w t c choice
    cases c <;> trivial
  performed := by
    intro w t c choice
    cases c with
    | connDelete key => cases key <;> rfl
    | wsSend ws doc => cases ws <;> rfl
    | _ => rfl
  entered := by
    intro w t kind w' p h
    obtain ⟨q, -, heq⟩ := Option.map_eq_some_iff.mp h
    cases heq
    rfl

theorem guard_of_effect (kind : Kind) (table : Table) (c : Call) (h : effect table c ≠ table) :
    guard kind (.call c) = some .connections := by
  cases c with
  | connSet key ws => rfl
  | connDelete key => rfl
  | _ => exact absurd rfl h

/-- A read of the variable `ws` of a handler: it is the socket, or `nil` once a
close event of the socket has come. -/
def Reads (closed : Set Sock) (w : Sock) (ws : Option Sock) : Prop :=
  ws = some w ∨ ws = none ∧ w ∈ closed

/-- An operation on the table. -/
inductive Commit where
  | opened (w : Sock)
  | stored (sn : Json) (ws : Option Sock)
  | dropped (ws : Option Sock)

def Commit.apply (table : Table) : Commit → Table
  | .opened w => table.insert (.socket w) none
  | .stored sn ws => table.insert (.serial sn.eqlKey) ws
  | .dropped ws => drop table ws

/-- The operations which a handler may perform. -/
def Commits (rt : Runtime) (closed : Set Sock) : Kind → Commit → Prop
  | .opened w, .opened w' => w' = w
  | .message w data, .stored sn ws =>
      SnOf rt data sn ∧ sn.truthy = true ∧ Reads closed w ws
  | .closed w, .dropped ws => Reads closed w ws
  | _, _ => False

def IsCommit : Prim sig → Prop
  | .call (.connSet _ _) => True
  | .call (.connDelete _) => True
  | _ => False

/-- The call performs an operation on the table which its handler may perform. -/
def Admits (rt : Runtime) (closed : Set Sock) (kind : Kind) (table : Table) : Call → Prop
  | .connSet key ws => ∃ commit, Commits rt closed kind commit ∧
      effect table (.connSet key ws) = commit.apply table
  | .connDelete key => ∃ commit, Commits rt closed kind commit ∧
      effect table (.connDelete key) = commit.apply table
  | .wsClear w => kind = .closed w
  | _ => True

/-- Only reads of the variables `ws` have to be sound. -/
def SoundReads (closed : Set Sock) : Event sig → Prop
  | ⟨.call (.wsVar w), ws⟩ => Reads closed w ws
  | _ => True

/-- Primitives without a part in this. -/
def Apart : Prim sig → Prop
  | .call (.connSet _ _) => False
  | .call (.connDelete _) => False
  | .call (.wsClear _) => False
  | .acquire m => m ≠ .connections
  | .release m => m ≠ .connections
  | _ => True

theorem Apart.free {rt : Runtime} {closed : Set Sock} {kind : Kind} {p : Prim sig}
    (h : Apart p) : Free (routes rt) (Admits rt closed kind) p := by
  cases p with
  | call c => cases c <;> first | exact h.elim | exact fun _ => trivial
  | acquire m => exact h
  | release m => exact h
  | _ => trivial

theorem Apart.not_commit {p : Prim sig} (h : Apart p) : ¬ IsCommit p := by
  cases p with
  | call c => cases c <;> first | exact h.elim | exact id
  | _ => exact id

section Apart
variable {rt : Runtime}

theorem apart_send {ws : Option Sock} {p : Prim sig} (h : IsSend ws p) : Apart p := by
  obtain ⟨doc, rfl⟩ := h
  trivial

/-- What the handler of a message does once the route is stored. -/
theorem apart_answer (w : Sock) (data : String) (message sn command : Json) :
    Uses Apart (do
      let ws ← call (.wsVar w)
      handleReg rt message ws
      if command = .str "sendlog" then publish sendlogChannel data else startSubscriber w sn) := by
  refine (uses_conclusion w data message sn command).mono (fun p h => ?_)
  cases h with
  | answer ws h => rcases h with rfl | ⟨doc, rfl⟩ <;> trivial
  | startSubscriber h =>
      cases h with
      | start sid h => rcases h with rfl | rfl | rfl | rfl | rfl | rfl <;> simp [Apart]
      | _ => trivial
  | _ => trivial

theorem apart_post (channel command body : String) :
    Uses Apart (post rt channel command body) := by
  refine (uses_commands channel command body).mono (fun p h => ?_)
  cases h with
  | send w h => exact apart_send h
  | _ => trivial

theorem apart_onPublished (sid : Sid) (ws : Option Sock) (text : String) :
    Uses Apart (onPublished rt sid ws text) := by
  refine (uses_onPublished text).mono (fun p h => ?_)
  cases h with
  | send h => exact apart_send h
  | _ => simp [Apart]

theorem apart_subscriberEnds (sid : Sid) (w : Sock) (channel : Json) :
    Uses Apart (subscriberEnds sid w channel) :=
  (uses_subscriberEnds sid w channel).mono (fun _ h => by cases h <;> simp [Apart])

end Apart

section Handlers
variable {rt : Runtime} {closed : Set Sock}

theorem asserts_apart {A : Type} {kind : Kind} {p : Code A} (h : Uses Apart p) :
    Asserts (routes rt) (SoundReads closed) (Admits rt closed kind) none p :=
  Asserts.of_uses (h.mono (fun _ hp => hp.free))

theorem asserts_parse {A : Type} {kind : Kind} {data : String} {f : Json → Code A}
    (hf : ∀ message, rt.parse data = some message →
      Asserts (routes rt) (SoundReads closed) (Admits rt closed kind) none (f message)) :
    Asserts (routes rt) (SoundReads closed) (Admits rt closed kind) none (parse rt data >>= f) := by
  unfold parse
  cases hp : rt.parse data with
  | none => rfl
  | some message => exact hf message hp

theorem asserts_lift {A B : Type} {kind : Kind} {e : Except RubyError A} {f : A → Code B}
    (hf : ∀ a, e = .ok a →
      Asserts (routes rt) (SoundReads closed) (Admits rt closed kind) none (f a)) :
    Asserts (routes rt) (SoundReads closed) (Admits rt closed kind) none (lift e >>= f) := by
  cases e with
  | error e => rfl
  | ok a => exact hf a rfl

theorem asserts_onOpen (w : Sock) :
    Asserts (routes rt) (SoundReads closed) (Admits rt closed (.opened w)) none (onOpen w) := by
  refine Asserts.synchronize (L := routes rt) ⟨fun table _ => ?_, fun _ _ => trivial⟩
  exact ⟨.opened w, rfl, rfl⟩

theorem asserts_handOver {kind : Kind} (sn : Json) (data : String) :
    Asserts (routes rt) (SoundReads closed) (Admits rt closed kind) none (handOver rt sn data) := by
  refine Asserts.synchronize (L := routes rt) ?_
  split_ifs
  · intro pushed
    cases pushed with
    | false => trivial
    | true =>
        intro deleted
        cases deleted <;> trivial
  · trivial

theorem asserts_registerRoute {w : Sock} {data : String} {sn : Json} (hsn : SnOf rt data sn) :
    Asserts (routes rt) (SoundReads closed) (Admits rt closed (.message w data)) none
      (registerRoute w sn) := by
  unfold registerRoute
  split_ifs with htruthy
  · refine Asserts.synchronize (L := routes rt) ⟨fun _ _ => trivial, fun ws hws => ?_⟩
    exact ⟨fun table _ => ⟨.stored sn ws, ⟨hsn, htruthy, hws⟩, rfl⟩, fun _ _ => trivial⟩
  · rfl

theorem asserts_onMessage (w : Sock) (data : String) :
    Asserts (routes rt) (SoundReads closed) (Admits rt closed (.message w data)) none
      (onMessage rt w data) := by
  refine asserts_parse (fun message hp => asserts_lift (fun sn hsn => ?_))
  refine (asserts_handOver sn data).bind (fun _ => asserts_lift (fun command _ => ?_))
  refine (asserts_registerRoute ⟨message, hp, hsn⟩).bind (fun _ => ?_)
  exact asserts_apart (apart_answer w data message sn command)

/-- The key which is deleted is still the first one that holds the socket. -/
theorem asserts_onClose (w : Sock) :
    Asserts (routes rt) (SoundReads closed) (Admits rt closed (.closed w)) none (onClose w) := by
  refine Asserts.bind (Asserts.synchronize (L := routes rt) ?_) (fun _ => ?_)
  · refine ⟨fun _ _ => trivial, fun ws hws => ⟨fun _ _ => trivial, fun key _ => ?_⟩⟩
    refine ⟨?_, fun _ _ => trivial⟩
    rintro table ⟨_, -, hkey, rfl⟩
    refine ⟨.dropped ws, hws, ?_⟩
    rw [show key = _ from hkey]
    exact effect_connDelete _ ws
  · exact ⟨fun _ _ => rfl, fun _ _ => rfl⟩

theorem asserts_enter (rt : Runtime) (closed : Set Sock) (w : World) (t : Tid) (kind : Kind)
    (w' : World) (p : Code Out) (h : (gateway rt).enter w t kind = some (w', p)) :
    Asserts (routes rt) (SoundReads closed) (Admits rt closed kind) none p := by
  obtain ⟨q, hq, heq⟩ := Option.map_eq_some_iff.mp h
  cases heq
  exact program_cases
    (P := fun kind p => Asserts (routes rt) (SoundReads closed) (Admits rt closed kind) none p) hq
    (fun w => (asserts_onOpen w).bind (fun _ => rfl))
    (fun w data => (asserts_onMessage w data).bind (fun _ => rfl))
    (fun w => (asserts_onClose w).bind (fun _ => rfl))
    (fun channel command body => (asserts_apart (apart_post channel command body)).bind
      (fun _ => rfl))
    (fun sid ws text => (asserts_apart (apart_onPublished sid ws text)).bind (fun _ => rfl))
    (fun sid w channel => (asserts_apart (apart_subscriberEnds sid w channel)).bind
      (fun _ => rfl))

end Handlers

/-! ### At most one operation for each handler -/

/-- After an operation on the table there is no other one. -/
def Once {A : Type} (p : Code A) : Prop :=
  After (fun e q => IsCommit e.prim → Uses (fun p => ¬ IsCommit p) q) p

section Once
variable {A B : Type} {p : Code A} {f : A → Code B}

theorem once_of_quiet (h : Uses (fun p => ¬ IsCommit p) p) : Once p :=
  h.after (fun _ _ hno hyes => absurd hyes hno)

theorem Once.bind_quiet (hp : Once p) (hf : ∀ a, Uses (fun p => ¬ IsCommit p) (f a)) :
    Once (p >>= f) :=
  After.bind hp (fun _ _ hq he => (hq he).bind hf) (fun a => once_of_quiet (hf a))

theorem Once.quiet_bind (hp : Uses (fun p => ¬ IsCommit p) p) (hf : ∀ a, Once (f a)) :
    Once (p >>= f) := by
  have silent : After (fun e _ => ¬ IsCommit e.prim) p := hp.after (fun _ _ h => h)
  exact silent.bind (fun _ _ hno hyes => absurd hyes hno) hf

theorem Once.synchronize {m : Mutex} (hp : Once p) : Once (p.synchronize m) := by
  have quiet : Uses (fun p => ¬ IsCommit p)
      (Program.act (.release m) .done : Code Unit) := ⟨id, fun _ => trivial⟩
  have body : Once (p.ensure (.act (.release m) .done)) := by
    induction p with
    | done a => exact once_of_quiet (quiet.bind (fun _ => trivial))
    | raise e => exact once_of_quiet (quiet.bind (fun _ => trivial))
    | act p k ih =>
        exact fun r => ⟨fun he => ((hp r).1 he).ensure quiet, ih r (hp r).2⟩
  exact fun r => ⟨fun he => he.elim, body⟩

end Once

section Handlers
variable {rt : Runtime}

theorem once_apart {A : Type} {p : Code A} (h : Uses Apart p) : Once p :=
  once_of_quiet (h.mono (fun _ hp => hp.not_commit))

theorem handOver_not_commit (sn : Json) (data : String) :
    Uses (fun p => ¬ IsCommit p) (handOver rt sn data) :=
  (uses_handOver sn data).mono (fun _ h => by cases h <;> exact id)

theorem once_registerRoute (w : Sock) (sn : Json) : Once (registerRoute w sn) := by
  unfold registerRoute
  split_ifs
  · refine Once.synchronize (fun ws => ⟨fun h => h.elim, fun _ => ⟨fun _ => trivial, trivial⟩⟩)
  · trivial

theorem once_onMessage (w : Sock) (data : String) : Once (onMessage rt w data) := by
  refine Once.quiet_bind (uses_parse data) (fun message => ?_)
  refine Once.quiet_bind (uses_lift _) (fun sn => ?_)
  refine Once.quiet_bind (handOver_not_commit sn data) (fun _ => ?_)
  refine Once.quiet_bind (uses_lift _) (fun command => ?_)
  refine (once_registerRoute w sn).bind_quiet (fun _ => ?_)
  exact (apart_answer w data message sn command).mono (fun _ hp => hp.not_commit)

theorem once_onClose (w : Sock) : Once (onClose w) := by
  refine Once.bind_quiet (Once.synchronize (fun ws => ⟨fun h => h.elim, fun key => ?_⟩))
    (fun _ => ⟨id, fun _ => trivial⟩)
  exact ⟨fun h => h.elim, fun _ => ⟨fun _ => trivial, trivial⟩⟩

theorem once_enter (rt : Runtime) (w : World) (t : Tid) (kind : Kind) (w' : World) (p : Code Out)
    (h : (gateway rt).enter w t kind = some (w', p)) : Once p := by
  obtain ⟨q, hq, heq⟩ := Option.map_eq_some_iff.mp h
  cases heq
  exact program_cases (P := fun _ p => Once p) hq
    (fun w => Once.bind_quiet (Once.synchronize (fun _ => ⟨fun _ => trivial, trivial⟩))
      (fun _ => trivial))
    (fun w data => (once_onMessage w data).bind_quiet (fun _ => trivial))
    (fun w => (once_onClose w).bind_quiet (fun _ => trivial))
    (fun channel command body => (once_apart (apart_post channel command body)).bind_quiet
      (fun _ => trivial))
    (fun sid ws text => (once_apart (apart_onPublished sid ws text)).bind_quiet (fun _ => trivial))
    (fun sid w channel => (once_apart (apart_subscriberEnds sid w channel)).bind_quiet
      (fun _ => trivial))

end Handlers

/-! ### Runs -/

/-- The sockets whose close event has come. -/
def closedSockets {rt : Runtime} (s : State (gateway rt)) : Set Sock :=
  {w | ∃ (t : Tid) (p : Code Out), s.threads[t]? = some ⟨.closed w, p⟩}

section Runs
variable {rt : Runtime} {ls : List (Label (gateway rt))} {s s' : State (gateway rt)}
  {l : Label (gateway rt)} {o : Obs (gateway rt)} {closed : Set Sock}

theorem closedSockets_step (wf : Wf s) (h : Step s l o s') :
    closedSockets s ⊆ closedSockets s' := by
  rintro w ⟨t, p, ht⟩
  obtain ⟨q, hq⟩ := step_kind wf h ht
  exact ⟨t, q, hq⟩

theorem sound_of_hears {e : Event sig} (hcleared : ∀ w ∈ s.world.cleared, w ∈ closed)
    (h : Hears s e) : SoundReads closed e := by
  cases h with
  | @called t kind c k choice ht =>
      cases c with
      | wsVar w =>
          change Reads closed w (if w ∈ s.world.cleared then none else some w)
          split_ifs with hw
          · exact .inr ⟨rfl, hcleared w hw⟩
          · exact .inl rfl
      | _ => trivial
  | _ => trivial

theorem perform_cleared {world : World} {choice : Choice} {c : Call} {w : Sock}
    (h : w ∈ (perform world choice c).1.cleared) : w ∈ world.cleared ∨ c = .wsClear w := by
  cases c with
  | wsClear w' =>
      rcases List.mem_cons.mp h with rfl | hw
      · exact .inr rfl
      · exact .inl hw
  | connDelete key => cases key <;> exact .inl h
  | wsSend ws doc => cases ws <;> exact .inl h
  | _ => exact .inl h

/-- Only a close handler sets the variable `ws` to `nil`. -/
theorem cleared_closed (h : exec (boot rt) ls = some s) :
    ∀ w ∈ s.world.cleared, w ∈ closedSockets s := by
  refine exec_induction
    (P := fun _ (s : State (gateway rt)) => ∀ w ∈ s.world.cleared, w ∈ closedSockets s)
    (by simp [boot, initial, World.start]) ?_ h
  intro ls s l o s' hs ih hstep w hw
  have a : Asserted (routes rt) guard (SoundReads Set.univ) (Admits rt Set.univ) s :=
    exec_asserted guard_of_effect (balanced_enter rt) (asserts_enter rt Set.univ) (fun _ => True)
      (fun _ _ _ _ _ _ _ => trivial) (fun _ _ _ _ _ he => sound_of_hears (fun _ _ => trivial) he)
      hs trivial
  have hkept : w ∈ s.world.cleared → w ∈ closedSockets s' :=
    fun hold => closedSockets_step (exec_wf hs) hstep (ih w hold)
  rcases step_calls hstep with hworld | ⟨t, kind, c, k, choice, ht, -, hworld⟩
  · rw [hworld] at hw
    exact hkept hw
  · rw [hworld] at hw
    rcases perform_cleared hw with hold | rfl
    · exact hkept hold
    · obtain rfl : kind = .closed w := a.admitted ht
      exact closedSockets_step (exec_wf hs) hstep ⟨t, _, ht⟩

/-- What the handlers know inside their sections is true. -/
theorem exec_performs (h : exec (boot rt) ls = some s) (hclosed : closedSockets s ⊆ closed) :
    Asserted (routes rt) guard (SoundReads closed) (Admits rt closed) s :=
  exec_asserted guard_of_effect (balanced_enter rt) (asserts_enter rt closed)
    (fun s => closedSockets s ⊆ closed)
    (fun _ _ _ _ wf hstep hsub => (closedSockets_step wf hstep).trans hsub)
    (fun _ _ hs hsub _ he => sound_of_hears (fun w hw => hsub (cleared_closed hs w hw)) he)
    h hclosed

/-- A step leaves the table alone or is a whole operation of the thread that moves. -/
theorem step_commits (h : exec (boot rt) ls = some s) (hstep : Step s l o s') :
    s'.world.connections = s.world.connections ∨
    ∃ t kind c k commit, s.threads[t]? = some ⟨kind, .act (.call c) k⟩ ∧ IsCommit (.call c) ∧
      (∃ r, o = .called t c r) ∧ Commits rt (closedSockets s) kind commit ∧
      s'.world.connections = commit.apply s.world.connections := by
  have a := exec_performs h (fun _ hw => hw)
  rcases step_calls hstep with hworld | ⟨t, kind, c, k, choice, ht, ho, hworld⟩
  · exact .inl (by rw [hworld])
  · have heffect : s'.world.connections = effect s.world.connections c := by
      rw [hworld]
      exact (routes rt).performed s.world t c choice
    have hadmitted := a.admitted ht
    cases c with
    | connSet key ws =>
        obtain ⟨commit, hcommit, happly⟩ := hadmitted
        exact .inr ⟨t, kind, .connSet key ws, k, commit, ht, trivial, ⟨_, ho⟩, hcommit,
          heffect.trans happly⟩
    | connDelete key =>
        obtain ⟨commit, hcommit, happly⟩ := hadmitted
        exact .inr ⟨t, kind, .connDelete key, k, commit, ht, trivial, ⟨_, ho⟩, hcommit,
          heffect.trans happly⟩
    | _ => exact .inl heffect

theorem Commits.mono {closed' : Set Sock} {kind : Kind} {commit : Commit}
    (h : Commits rt closed kind commit) (hsub : closed ⊆ closed') :
    Commits rt closed' kind commit := by
  have reads : ∀ {w : Sock} {ws : Option Sock}, Reads closed w ws → Reads closed' w ws :=
    fun hr => hr.imp_right (fun ⟨hnone, hw⟩ => ⟨hnone, hsub hw⟩)
  cases kind <;> cases commit <;> first | exact h | exact reads h | exact ⟨h.1, h.2.1, reads h.2.2⟩

/-- A thread that has changed the table once is not about to change it again. -/
theorem not_commit_again (h : exec (boot rt) ls = some s) {t : Tid} {kind : Kind} {c : Call}
    {k : c.Resp → Code Out} (ht : s.threads[t]? = some ⟨kind, .act (.call c) k⟩)
    {e : Event sig} (he : e ∈ trace t s.log) (hfirst : IsCommit e.prim) :
    ¬ IsCommit (.call c) := by
  obtain ⟨v, v', p, henter, hres⟩ := exec_residual h ht
  obtain ⟨q, tr, hq, hrest⟩ := (once_enter rt _ _ _ _ _ henter).of_mem hres he
  exact (hrest.uses (hq hfirst)).2.1

/-- In every interleaving, whatever fails, `CONNECTIONS` is the result of whole
operations in some order. Every operation is one which its handler may perform, and
no handler has performed two. -/
theorem table_linear (h : exec (boot rt) ls = some s) :
    ∃ commits : List (Tid × Commit), (commits.map Prod.fst).Nodup ∧
      s.world.connections = (commits.map Prod.snd).foldl Commit.apply Hash.empty ∧
      ∀ t commit, (t, commit) ∈ commits →
        ∃ th, s.threads[t]? = some th ∧ Commits rt (closedSockets s) th.kind commit := by
  have traced : ∃ commits : List (Tid × Commit), (commits.map Prod.fst).Nodup ∧
      s.world.connections = (commits.map Prod.snd).foldl Commit.apply Hash.empty ∧
      ∀ t commit, (t, commit) ∈ commits →
        (∃ th, s.threads[t]? = some th ∧ Commits rt (closedSockets s) th.kind commit) ∧
        ∃ e ∈ trace t s.log, IsCommit e.prim := by
    refine exec_induction (P := fun _ (s : State (gateway rt)) =>
      ∃ commits : List (Tid × Commit), (commits.map Prod.fst).Nodup ∧
        s.world.connections = (commits.map Prod.snd).foldl Commit.apply Hash.empty ∧
        ∀ t commit, (t, commit) ∈ commits →
          (∃ th, s.threads[t]? = some th ∧ Commits rt (closedSockets s) th.kind commit) ∧
          ∃ e ∈ trace t s.log, IsCommit e.prim) ⟨[], by simp, rfl, by simp⟩ ?_ h
    rintro ls s l o s' hs ⟨commits, hnodup, htable, hcommits⟩ hstep
    have wf := exec_wf hs
    have grown : ∀ t commit, (t, commit) ∈ commits →
        (∃ th, s'.threads[t]? = some th ∧ Commits rt (closedSockets s') th.kind commit) ∧
        ∃ e ∈ trace t s'.log, IsCommit e.prim := by
      intro t commit hm
      obtain ⟨⟨th, ht, hc⟩, e, he, hcommit⟩ := hcommits t commit hm
      obtain ⟨q, hq⟩ := step_kind wf hstep ht
      refine ⟨⟨_, hq, hc.mono (closedSockets_step wf hstep)⟩, e, ?_, hcommit⟩
      rw [step_log hstep, trace_append]
      exact List.mem_append_left _ he
    rcases step_commits hs hstep with
      hsame | ⟨t, kind, c, k, commit, ht, hc, ⟨r, ho⟩, hkind, happly⟩
    · exact ⟨commits, hnodup, hsame.trans htable, grown⟩
    · refine ⟨commits ++ [(t, commit)], ?_, ?_, ?_⟩
      · rw [List.map_append, List.map_singleton]
        refine hnodup.append (List.nodup_singleton t) ?_
        rintro t' hold hnew
        rw [List.mem_singleton] at hnew
        subst hnew
        obtain ⟨⟨t', commit'⟩, hm, rfl⟩ := List.mem_map.mp hold
        obtain ⟨-, e, he, hfirst⟩ := hcommits t' commit' hm
        exact not_commit_again hs ht he hfirst hc
      · rw [happly, htable, List.map_append, List.foldl_append]
        rfl
      · intro t' commit' hm
        rcases List.mem_append.mp hm with hm | hm
        · exact grown t' commit' hm
        · cases List.mem_singleton.mp hm
          obtain ⟨q, hq⟩ := step_kind wf hstep ht
          refine ⟨⟨_, hq, hkind.mono (closedSockets_step wf hstep)⟩, ⟨.call c, r⟩, ?_, hc⟩
          rw [step_log hstep, trace_append, ho]
          simp [events]
  obtain ⟨commits, hnodup, htable, hcommits⟩ := traced
  exact ⟨commits, hnodup, htable, fun t commit hm => (hcommits t commit hm).1⟩

/-- An operation of another handler leaves a route alone. -/
theorem commit_keeps {table : Table} {c : String} {w : Sock} {kind : Kind} {commit : Commit}
    (hroute : table.get? (.serial (.str c)) = some (some w)) (hw : w ∉ closed)
    (hcommit : Commits rt closed kind commit) (hclose : kind ≠ .closed w)
    (hmessage : ∀ w' data, kind = .message w' data → SnOf rt data (.str c) → w' = w) :
    (commit.apply table).get? (.serial (.str c)) = some (some w) := by
  cases commit with
  | opened w' =>
      rw [Commit.apply, Hash.get?_insert_ne _ _ (by simp)]
      exact hroute
  | stored sn ws =>
      cases kind with
      | message w' data =>
          obtain ⟨hsn, -, hws⟩ := hcommit
          by_cases hkey : sn.eqlKey = .str c
          · rw [Json.eqlKey_eq_str] at hkey
            subst hkey
            obtain rfl := hmessage w' data rfl hsn
            obtain rfl : ws = some w' := hws.resolve_right (fun hnone => hw hnone.2)
            rw [Commit.apply, Json.eqlKey_str, Hash.get?_insert_self]
          · rw [Commit.apply, Hash.get?_insert_ne _ _ (by simpa using Ne.symm hkey)]
            exact hroute
      | _ => exact hcommit.elim
  | dropped ws =>
      cases kind with
      | closed w' =>
          simp only [Commit.apply, drop]
          split
          · rename_i key hkey
            have hvalue := Hash.get?_keyOf hkey
            rw [Hash.get?_eq_some, Hash.mem_erase]
            refine ⟨?_, Hash.get?_eq_some.mp hroute⟩
            -- the key that is dropped holds another socket
            rintro rfl
            rw [hroute, Option.some.injEq] at hvalue
            subst hvalue
            rcases hcommit with hsame | ⟨hnone, -⟩
            · cases hsame
              exact hclose rfl
            · cases hnone
          · exact hroute
      | _ => exact hcommit.elim

/-- What one step does not take away, a run does not: the route is still there. -/
theorem exec_route (h : exec (boot rt) ls = some s) {ls' : List (Label (gateway rt))}
    (h' : exec s ls' = some s') {c : String} {w : Sock}
    (hroute : s.world.connections.get? (.serial (.str c)) = some (some w))
    (hopen : w ∉ closedSockets s')
    (hothers : ∀ t w' data p, s'.threads[t]? = some ⟨.message w' data, p⟩ →
      SnOf rt data (.str c) → w' = w ∨ Ended s t) :
    s'.world.connections.get? (.serial (.str c)) = some (some w) := by
  refine exec_induction (P := fun ls' (s' : State (gateway rt)) => w ∉ closedSockets s' →
    (∀ t w' data p, s'.threads[t]? = some ⟨.message w' data, p⟩ →
      SnOf rt data (.str c) → w' = w ∨ Ended s t) →
    s'.world.connections.get? (.serial (.str c)) = some (some w)) ?_ ?_ h' hopen hothers
  · exact fun _ _ => hroute
  intro ls₁ s₁ l o s₂ h₁ ih hstep hopen hothers
  have hrun := exec_trans h h₁
  have wf := exec_wf hrun
  have hopen₁ : w ∉ closedSockets s₁ := fun hw => hopen (closedSockets_step wf hstep hw)
  have hothers₁ : ∀ t w' data p, s₁.threads[t]? = some ⟨.message w' data, p⟩ →
      SnOf rt data (.str c) → w' = w ∨ Ended s t := by
    intro t w' data p ht hsn
    obtain ⟨q, hq⟩ := step_kind wf hstep ht
    exact hothers t w' data q hq hsn
  have hkept := ih hopen₁ hothers₁
  rcases step_commits hrun hstep with hsame | ⟨t, kind, call, k, commit, ht, -, -, hkind, happly⟩
  · rw [hsame]
    exact hkept
  · rw [happly]
    refine commit_keeps hkept hopen₁ hkind ?_ ?_
    · rintro rfl
      exact hopen₁ ⟨t, _, ht⟩
    · rintro w' data rfl hsn
      rcases hothers₁ t w' data _ ht hsn with heq | hended
      · exact heq
      · exact ((exec_ended (exec_wf h) h₁ hended).not_running ht).elim

theorem closedSockets_exec (wf : Wf s) (h : exec s ls = some s') :
    closedSockets s ⊆ closedSockets s' := by
  rintro w ⟨t, p, ht⟩
  obtain ⟨q, hq⟩ := exec_kind wf h ht
  exact ⟨t, q, hq⟩

/-- A request that enters while there is a route finds it. -/
theorem exec_lookup (h : exec (boot rt) ls = some s) {ls' : List (Label (gateway rt))}
    (h' : exec s ls' = some s') {c : String} {w : Sock}
    (hroute : s.world.connections.get? (.serial (.str c)) = some (some w))
    (hopen : w ∉ closedSockets s')
    (hothers : ∀ t w' data p, s'.threads[t]? = some ⟨.message w' data, p⟩ →
      SnOf rt data (.str c) → w' = w ∨ Ended s t) {u : Tid} (hu : s.threads.length ≤ u)
    {found : Option Sock} (hfound : .called u (.connGet c) found ∈ s'.log) : found = some w := by
  obtain ⟨ls₁, l, ls₂, s₁, s₂, -, h₁, hstep, h₂⟩ := exec_split_called h h' hu hfound
  have wf : Wf s₁ := exec_wf_from (exec_wf h) h₁
  have hrest := exec_cons hstep h₂
  have hkept := exec_route h h₁ hroute (fun hw => hopen (closedSockets_exec wf hrest hw)) (by
    intro t w' data p ht hsn
    obtain ⟨q, hq⟩ := exec_kind wf hrest ht
    exact hothers t w' data q hq hsn)
  cases hstep with
  | call _ => exact congrArg Option.join hkept

/-- In every interleaving a stored route stays, and requests that enter find it, as
long as its socket gets no close event and no message with its serial arrives on
another socket. Handlers that had ended before do not count. -/
theorem route_survives (h : exec (boot rt) ls = some s) {ls' : List (Label (gateway rt))}
    (h' : exec s ls' = some s') {c : String} {w : Sock}
    (hroute : s.world.connections.get? (.serial (.str c)) = some (some w))
    (hopen : w ∉ closedSockets s')
    (hothers : ∀ t w' data p, s'.threads[t]? = some ⟨.message w' data, p⟩ →
      SnOf rt data (.str c) → w' = w ∨ Ended s t) :
    s'.world.connections.get? (.serial (.str c)) = some (some w) ∧
      ∀ u found, s.threads.length ≤ u → .called u (.connGet c) found ∈ s'.log →
        found = some w :=
  ⟨exec_route h h' hroute hopen hothers,
    fun _ _ hu hfound => exec_lookup h h' hroute hopen hothers hu hfound⟩

end Runs

/-- Reader `A` registers on socket 0 and again on socket 1. -/
def comesBack : List (Label (gateway ConnectionTable.twoSerials)) :=
  .enter (.message 0 "reg A") :: turns 0 21 ++ .enter (.message 1 "reg A") :: turns 1 21

/-- Its old socket closes while reader `B` registers. -/
def oldCloses : List (Label (gateway ConnectionTable.twoSerials)) :=
  .enter (.closed 0) :: turns 2 2 ++ .enter (.message 2 "reg B") :: turns 2 3 ++ turns 3 10 ++
    turns 2 1

theorem table_linear_comesBack : ∃ commits : List (Tid × Commit),
    (after comesBack).world.connections =
      (commits.map Prod.snd).foldl Commit.apply Hash.empty := by
  have h : exec (boot ConnectionTable.twoSerials) comesBack = some (after comesBack) := rfl
  obtain ⟨commits, -, htable, -⟩ := table_linear h
  exact ⟨commits, htable⟩

theorem route_survives_oldCloses : ∃ s', exec (after comesBack) oldCloses = some s' ∧
    s'.world.connections.get? (.serial (.str "A")) = some (some 1) := by
  have h : exec (boot ConnectionTable.twoSerials) comesBack = some (after comesBack) := rfl
  obtain ⟨s', h'⟩ : ∃ s', exec (after comesBack) oldCloses = some s' := ⟨_, rfl⟩
  have kinds : s'.threads.map Thread.kind =
      [.message 0 "reg A", .message 1 "reg A", .closed 0, .message 2 "reg B"] := by
    cases h'
    rfl
  have kind_of : ∀ {t : Tid} {kind : Kind} {p : Code Out}, s'.threads[t]? = some ⟨kind, p⟩ →
      (s'.threads.map Thread.kind)[t]? = some kind := fun ht => by simp [ht]
  refine ⟨s', h', (route_survives h h' rfl ?_ ?_).1⟩
  · rintro ⟨t, p, ht⟩
    have hkind := List.mem_of_getElem? (kind_of ht)
    simp [kinds] at hkind
  · rintro t w' data p ht ⟨message, hparse, hsn⟩
    have hkind := kind_of ht
    rw [kinds] at hkind
    match t with
    | 0 => exact .inr ⟨_, rfl, trivial⟩
    | 1 =>
        cases hkind
        exact .inl rfl
    | 2 => cases hkind
    | 3 =>
        cases hkind
        cases hparse
        exact absurd (Json.str.inj (Except.ok.inj hsn)) (by decide)
    | t + 4 => cases hkind

end EvoGw.RoutingTable
