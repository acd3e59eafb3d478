import EvoGw.ReplyHandoff
import EvoGw.StepConditions
import EvoGw.WaitOrder

/-!
# Which reply a request gets

There is no request id. A reader answers command frames in the order in which they
were written to its socket, while the gateway serves requests in the order in which
they reached BLPOP. The two orders have nothing to do with each other, so requests
can get each other's replies.

They do not if the steps keep one order: requests reach BLPOP in the order of their
frames, each reply is pushed in the order of its arrival and after the BLPOP of its
request, and no wait on the channel times out. A run starts at a state in which the
channel is idle; `base` is the log of this state. Steps on other channels come in
between at will, and Redis may fail.
-/
namespace EvoGw.ReplyCorrelation
open ThreadPrograms ThreadPools PoolTraces HandoffFate ListHistories
open StepConditions Deliveries WaitOrder
open GatewayCalls JsonValues ServerRoute GatewayPool CommandResults ReplyHandoff

section Orders
variable {rt : Runtime}

/-- The requests on a channel that have entered. -/
def requests (c : String) (log : List (Obs (gateway rt))) : List Tid :=
  log.filterMap (fun
    | .entered t (.post channel _ _) => if channel = c then some t else none
    | _ => none)

/-- One of these threads has written a command frame. -/
def author? (threads : List Tid) : Obs (gateway rt) → Option Tid
  | .called t (.wsSend (some _) _) sent =>
      if sent = Sent.written ∧ t ∈ threads then some t else none
  | _ => none

/-- The authors of the command frames written by requests on the channel since
`base`, in the order of the frames. -/
def frames (c : String) (base log : List (Obs (gateway rt))) : List Tid :=
  (log.drop base.length).filterMap (author? (requests c log))

/-- The handlers of the messages for the channel that have arrived since `base`, in
the order of their arrival. -/
def arrived (c : String) (base log : List (Obs (gateway rt))) : List Tid :=
  (log.drop base.length).filterMap (fun
    | .entered t (.message _ data) =>
        if replyKey rt data = some (responseKey c) then some t else none
    | _ => none)

/-- The handlers of the replies to the frames of `r`, given that the reader answers
every frame once and in order, and sends nothing else. -/
def repliesTo (c : String) (base log : List (Obs (gateway rt))) (r : Tid) : List Tid :=
  (((frames c base log).zip (arrived c base log)).filter (fun x => x.1 = r)).map Prod.snd

/-- What a request on the channel has returned are the replies to its own frames, in
the order of these frames. -/
def Correlated (c : String) (s₀ s : State (gateway rt)) : Prop :=
  ∀ r results, s₀.threads.length ≤ r → HasReturned s r c results →
    ∃ hs, hs <+: repliesTo c s₀.log s.log r ∧
      List.Forall₂ (Brings s) (results.filterMap message?) hs

/-- BLPOP on the channel is due to the author of the next frame. A push is due to the
handler that has arrived next, once its request has issued BLPOP. -/
def Due (c : String) (base log : List (Obs (gateway rt))) (t : Tid) : Option (Prim sig) → Prop
  | some (.await key) => key = responseKey c →
      (frames c base log)[(waiters key base log).length]? = some t
  | some (.push key _) => key = responseKey c →
      (arrived c base log)[(pushers key base log).length]? = some t ∧
        (pushers key base log).length < (waiters key base log).length
  | _ => True

instance (c : String) (base log : List (Obs (gateway rt))) (t : Tid) (p : Option (Prim sig)) :
    Decidable (Due c base log t p) :=
  match p with
  | some (.await _) => inferInstanceAs (Decidable (_ → _))
  | some (.push _ _) => inferInstanceAs (Decidable (_ → _))
  | none => .isTrue trivial
  | some (.call _) => .isTrue trivial
  | some (.acquire _) => .isTrue trivial
  | some (.release _) => .isTrue trivial
  | some (.clear _) => .isTrue trivial

/-- Waits and pushes on the channel come when they are due, and no wait times out. -/
def InOrder (c : String) (base : List (Obs (gateway rt))) (s : State (gateway rt)) :
    Label (gateway rt) → Prop
  | .enter _ => True
  | .run t choice => Due c base s.log t (next? s (.run t choice))
  | .expire t => (t, responseKey c) ∉ s.waiting

instance (c : String) (base : List (Obs (gateway rt))) (s : State (gateway rt))
    (l : Label (gateway rt)) : Decidable (InOrder c base s l) :=
  match l with
  | .enter _ => .isTrue trivial
  | .run t choice => inferInstanceAs (Decidable (Due c base s.log t (next? s (.run t choice))))
  | .expire t => inferInstanceAs (Decidable ((t, responseKey c) ∉ s.waiting))

/-- No message is on the list of the channel and nobody waits for one. -/
def Idle (c : String) (s : State (gateway rt)) : Prop :=
  s.lists (responseKey c) = [] ∧ s.queue (responseKey c) = []

end Orders

section Steps
variable {rt : Runtime} {c : String} {s₀ s s' : State (gateway rt)} {l : Label (gateway rt)}
  {o : Obs (gateway rt)} {ls₀ ls : List (Label (gateway rt))} {base : List (Obs (gateway rt))}

theorem requests_step (hstep : Step s l o s') {t : Tid} (ht : t < s.threads.length) :
    t ∈ requests c s'.log ↔ t ∈ requests c s.log := by
  rw [step_log hstep, requests, List.filterMap_append, List.mem_append]
  refine or_iff_left (fun hnew => ?_)
  obtain ⟨o', ho', hentered⟩ := List.mem_filterMap.mp hnew
  obtain rfl := List.mem_singleton.mp ho'
  cases hstep with
  | @enter kind w p _ =>
      cases kind with
      | post channel command body =>
          obtain ⟨-, heq⟩ := Option.ite_none_right_eq_some.mp hentered
          exact Nat.lt_irrefl _ (Option.some.inj heq ▸ ht)
      | _ => cases hentered
  | _ => cases hentered

/-- Frames stay where they are: a thread that enters has not written any. -/
theorem frames_step (h : exec (boot rt) ls = some s) (hbase : base <+: s.log)
    (hstep : Step s l o s') : frames c base s.log <+: frames c base s'.log := by
  have hsame : frames c base s.log =
      (s.log.drop base.length).filterMap (author? (requests c s'.log)) := by
    refine List.filterMap_congr (fun o' ho' => ?_)
    unfold author?
    split
    · rename_i t w doc sent
      obtain ⟨th, ht⟩ := thread_of_trace h (trace_of_called (List.mem_of_mem_drop ho'))
      have hlt := (List.getElem?_eq_some_iff.mp ht).choose
      simp only [requests_step hstep hlt]
    · rfl
  have hgrown := filterMap_step (author? (requests c s'.log)) hbase hstep
  rw [hsame, frames, hgrown]
  exact List.prefix_append _ _

theorem arrived_step (hbase : base <+: s.log) (hstep : Step s l o s') :
    arrived c base s.log <+: arrived c base s'.log := by
  rw [arrived, arrived, filterMap_step _ hbase hstep]
  exact List.prefix_append _ _

theorem InOrder.prompt (hl : InOrder c base s l) : Prompt (responseKey c) base s l := by
  constructor
  · intro d hd
    cases l with
    | run t choice =>
        have hdue : Due c base s.log t (next? s (.run t choice)) := hl
        rw [hd] at hdue
        exact (hdue rfl).2
    | _ => cases hd
  · rintro t rfl
    exact hl

theorem concat_extends {X : Type} {xs ys : List X} {x : X} (h : xs <+: ys)
    (hx : ys[xs.length]? = some x) : xs ++ [x] <+: ys := by
  obtain ⟨rest, rfl⟩ := h
  rw [List.getElem?_append_right (Nat.le_refl _), Nat.sub_self] at hx
  cases rest with
  | nil => cases hx
  | cons y rest =>
      cases hx
      exact ⟨rest, by simp⟩

/-- The channel is served in order, waits follow the frames and pushes the arrivals. -/
structure Following (c : String) (s₀ s : State (gateway rt)) : Prop where
  run : ∃ ls, exec s₀ ls = some s
  served : Matched (responseKey c) s₀.log s
  waits : waiters (responseKey c) s₀.log s.log <+: frames c s₀.log s.log
  pushes : pushers (responseKey c) s₀.log s.log <+: arrived c s₀.log s.log

theorem following_idle (h : Idle c s₀) : Following c s₀ s₀ where
  run := ⟨[], rfl⟩
  served := matched_idle h.1 h.2
  waits := by simp [waiters, issuers]
  pushes := by simp [pushers]

/-- The thread that issues a wait, or pushes, is the one which the label names. -/
theorem step_following (h₀ : exec (boot rt) ls₀ = some s₀) (inv : Following c s₀ s)
    (hl : InOrder c s₀.log s l) (hstep : Step s l o s') : Following c s₀ s' := by
  obtain ⟨ls, hrun⟩ := inv.run
  have hfull := exec_trans h₀ hrun
  have hbase := inv.served.grown
  refine ⟨⟨ls ++ [l], exec_snoc hrun hstep⟩,
    step_matched (exec_wf hfull) inv.served hl.prompt hstep, ?_, ?_⟩
  · refine List.IsPrefix.trans ?_ (frames_step hfull hbase hstep)
    rw [waiters_step _ hbase hstep]
    cases hwait : issuer? (responseKey c) o with
    | none =>
        rw [Option.toList_none, List.append_nil]
        exact inv.waits
    | some t =>
        refine concat_extends inv.waits ?_
        cases hstep with
        | awaitBlock ht _ _ _ | awaitTake ht _ _ _ =>
            obtain ⟨hkey, heq⟩ := Option.ite_none_right_eq_some.mp hwait
            cases heq
            have hdue : Due c s₀.log s.log t (next? s (.run t _)) := hl
            rw [next?_run ht] at hdue
            subst hkey
            exact hdue rfl
        | _ => cases hwait
  · refine List.IsPrefix.trans ?_ (arrived_step hbase hstep)
    rw [pushers_step _ hbase hstep]
    cases hpush : pusher? (responseKey c) o with
    | none =>
        rw [Option.toList_none, List.append_nil]
        exact inv.pushes
    | some t =>
        refine concat_extends inv.pushes ?_
        cases hstep with
        | pushKeep ht _ _ | pushHand ht _ _ =>
            obtain ⟨hkey, heq⟩ := Option.ite_none_right_eq_some.mp hpush
            cases heq
            have hdue : Due c s₀.log s.log t (next? s (.run t _)) := hl
            rw [next?_run ht] at hdue
            subst hkey
            exact (hdue rfl).1
        | _ => cases hpush

/-- What a request that has entered since `s₀` was served with was handed over on
its channel since then. -/
theorem senders_handed (h₀ : exec (boot rt) ls₀ = some s₀) (h : exec s₀ ls = some s)
    {r : Tid} (hr : s₀.threads.length ≤ r) {command body : String} {p : Code Out}
    (ht : s.threads[r]? = some ⟨.post c command body, p⟩) :
    senders r s.log =
      ((handed (responseKey c) s₀.log s.log).filter (fun x => x.1 = r)).map Prod.snd := by
  have hbefore : deliveredTo r s₀.log = [] := by
    rw [List.eq_nil_iff_forall_not_mem]
    intro x hx
    have hgot := got_of_delivered (exec_recorded h₀) hx
    rw [exec_absent h₀ hr] at hgot
    cases hgot
  obtain ⟨log, hlog⟩ := exec_log h
  have hrecent : deliveredTo r s.log = deliveredTo r log := by
    rw [hlog, deliveredTo, List.filterMap_append, ← deliveredTo, hbefore, List.nil_append]
    rfl
  have hkey : ∀ x ∈ deliveredTo r log, x.key = responseKey c := by
    intro x hx
    obtain ⟨_, _, _, _, ht', hkey⟩ := receiver_request (exec_trans h₀ h) (hrecent ▸ hx)
    rw [ht] at ht'
    cases ht'
    exact hkey
  rw [senders, hrecent, handed, hlog, List.drop_left]
  exact senders_eq hkey

theorem Following.correlated (h₀ : exec (boot rt) ls₀ = some s₀) (inv : Following c s₀ s) :
    Correlated c s₀ s := by
  intro r results hr hreturned
  obtain ⟨ls, hrun⟩ := inv.run
  refine ⟨senders r s.log, ?_, hreturned.brought (exec_trans h₀ hrun)⟩
  obtain ⟨command, body, p, ht, -⟩ := hreturned
  rw [senders_handed h₀ hrun hr ht, inv.served.pairs]
  exact ((zip_extends inv.waits inv.pushes inv.served.served).filter _).map _

end Steps

/-- Two requests whose frames, waits and replies are in the same order. -/
def inOrder : List (Label (gateway reader)) :=
  .enter (.post "A" "user_list" "") :: turns 2 4 ++ .enter (.post "A" "reboot" "") :: turns 3 4 ++
    .enter (.message 0 "reply") :: turns 4 4 ++ .enter (.message 0 "second reply") :: turns 5 4

/-- Request 2 writes first, but request 3 is the first to wait. -/
def crossed : List (Label (gateway reader)) :=
  .enter (.post "A" "user_list" "") :: turns 2 2 ++ .enter (.post "A" "reboot" "") :: turns 3 4 ++
    turns 2 2 ++
    .enter (.message 0 "reply") :: turns 4 4 ++ .enter (.message 0 "second reply") :: turns 5 4

def crossedState : State (gateway reader) := after (registration ++ crossed)

end EvoGw.ReplyCorrelation
