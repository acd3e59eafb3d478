import EvoGw.ReplyHandoff

/-!
# One request and the reply to its frame

A request writes its frame first and starts to wait later, while the handler of
the reply pushes and deletes at once. With one request in flight on a channel
and one message for it, the request returns the message exactly if it has issued
its BLPOP before the handler's DEL. A handler that is done earlier leaves
nothing behind, and the request waits until its timeout.
-/
namespace EvoGw.LostReply
open ThreadPrograms ThreadPools PoolTraces LockedHandoff HandoffFate ListHistories Deliveries
open GatewayCalls JsonValues ServerRoute GatewayPool CommandResults ReplyHandoff

/-- The arguments of a request that sends a single command, not one per item of
an array. -/
def singleArgs (rt : Runtime) (command body : String) : Option (List Json) :=
  if command ∈ commandsWithoutBody then some [] else
    if strip body = "" then none else
      match rt.parse (strip body) with
      | some (.arr _) => none
      | some parsed => some (itemArgs parsed)
      | none => none

section Programs
variable {rt : Runtime} {c command body data : String} {args : List Json} {message result : Json}

def singleCommand (rt : Runtime) (c command : String) (args : List Json) : Code Answer :=
  handleWsCommand rt c command args >>= responseHttp

theorem post_single (h : singleArgs rt command body = some args) :
    post rt c command body = singleCommand rt c command args ∨
      post rt c command body = (singleCommand rt c command args).rescue (fun e =>
        if e = .parserError then pure ⟨400, .error "Invalid JSON"⟩ else .raise e) := by
  unfold singleArgs at h
  unfold post
  by_cases hc : command ∈ commandsWithoutBody
  · simp only [hc, if_true, Option.some.injEq] at h ⊢
    subst h
    exact .inl rfl
  · by_cases hb : strip body = ""
    · simp [hc, hb] at h
    · simp only [hc, hb, if_false] at h ⊢
      right
      cases hp : rt.parse (strip body) with
      | none => simp [hp] at h
      | some parsed =>
          cases parsed with
          | arr items => simp [hp] at h
          | _ =>
              simp only [hp, Option.some.injEq] at h
              subst h
              rw [postBody_value hb hp (by simp)]
              rfl

/-- Once the wait is answered with `data`, the program is done with `a`. -/
def Returns {A : Type} (key data : String) (a : A) (e : Event sig) (q : Code A) : Prop :=
  e = ⟨.await key, .got data⟩ → q = .done a

theorem after_post (hs : singleArgs rt command body = some args)
    (hp : rt.parse data = some message) (hr : message.index "result" = .ok result) :
    After (Returns (responseKey c) data (Out.answered ⟨200, .single result (.device message)⟩))
      (Out.answered <$> post rt c command body) := by
  have single : After (Returns (responseKey c) data
      (⟨200, .single result (.device message)⟩ : Answer)) (singleCommand rt c command args) := by
    refine conveys_handleWsCommand.bind ?_ ?_
    · intro e q hq he
      rw [hq _ _ _ he hp]
      simp [responseHttp, Result.index, hr, lift]
    · intro response
      unfold responseHttp
      cases response.index "result" <;> trivial
  have whole : After (Returns (responseKey c) data
      (⟨200, .single result (.device message)⟩ : Answer)) (post rt c command body) := by
    rcases post_single (c := c) hs with h | h
    · rw [h]
      exact single
    · rw [h]
      refine single.rescue ?_ ?_
      · intro e q hq he
        rw [hq he]
        rfl
      · intro e
        by_cases he : e = .parserError <;> simp only [he, if_true, if_false] <;> trivial
  refine whole.bind ?_ (fun _ => trivial)
  intro e q hq he
  rw [hq he]
  rfl

end Programs

/-- The thread is a request on the channel, or handles a message for it. -/
def Concerns (rt : Runtime) (c : String) : Kind → Prop
  | .post channel _ _ => channel = c
  | .message _ data => replyKey rt data = some (responseKey c)
  | _ => False

/-- From `s₀` to `s`, without Redis failures: a request on `c` enters, and of the
threads that concern `c` only this request and the handler `h`, which enters
later, are not over already. -/
structure Exchange (rt : Runtime) (c command body : String) (s₀ s : State (gateway rt))
    (h : Tid) : Prop where
  past : ∃ ls, exec (boot rt) ls = some s₀ ∧ ∀ l ∈ ls, l.Calm
  run : ∃ ls, exec s₀ (.enter (.post c command body) :: ls) = some s ∧ ∀ l ∈ ls, l.Calm
  alone : ∀ t kind p, s.threads[t]? = some ⟨kind, p⟩ → Concerns rt c kind →
    t = s₀.threads.length ∨ t = h ∨ Ended s₀ t
  late : s₀.threads.length < h

section Exchange
variable {rt : Runtime} {c command body : String} {s₀ s : State (gateway rt)} {h : Tid}

/-- The whole run up to `s`, split at `s₀`. -/
theorem Exchange.whole (x : Exchange rt c command body s₀ s h) :
    ∃ ls₀ ls, exec (boot rt) ls₀ = some s₀ ∧ exec s₀ ls = some s ∧
      exec (boot rt) (ls₀ ++ ls) = some s ∧ ∀ l ∈ ls₀ ++ ls, l.Calm := by
  obtain ⟨ls₀, h₀, calm₀⟩ := x.past
  obtain ⟨ls, hrun, calm⟩ := x.run
  refine ⟨ls₀, _, h₀, hrun, by rw [exec_append, h₀]; exact hrun, ?_⟩
  intro l hl
  rcases List.mem_append.mp hl with hl | hl
  · exact calm₀ l hl
  · rcases List.mem_cons.mp hl with rfl | hl
    · trivial
    · exact calm l hl

theorem Exchange.request (x : Exchange rt c command body s₀ s h) :
    ∃ p, s.threads[s₀.threads.length]? = some ⟨.post c command body, p⟩ := by
  obtain ⟨ls₀, h₀, -⟩ := x.past
  obtain ⟨ls, hrun, -⟩ := x.run
  obtain ⟨s₁, hstep, hrest⟩ := Option.bind_eq_some_iff.mp hrun
  obtain ⟨o, ho⟩ := step_sound hstep
  cases ho with
  | @enter _ w p henter =>
      have hnew : (s₀.threads ++ [(⟨.post c command body, p⟩ : Thread (gateway rt))])[
          s₀.threads.length]? = some ⟨.post c command body, p⟩ := by simp
      exact exec_kind (step_wf (exec_wf h₀) (.enter henter)) hrest hnew

/-- Whoever delivers something to the request is the handler `h`. -/
theorem Exchange.deliverer (x : Exchange rt c command body s₀ s h) {o : Obs (gateway rt)} {t : Tid}
    (ho : o ∈ s.log) (hr : receiver? t o = some s₀.threads.length) : t = h := by
  obtain ⟨ls₀, ls, h₀, hrun, hfull, calm⟩ := x.whole
  obtain ⟨p, hreq⟩ := x.request
  have d := run_attributed hfull calm
  obtain ⟨key, data, q, hd, hq⟩ := (exec_recorded hfull).delivered o ho t _ hr
  -- the request waits on its own key only
  have hkey : key = responseKey c := by
    have hawait : ∃ got, Obs.awaited s₀.threads.length key got ∈ s.log := by
      cases hd with
      | handed queue _ => exact ⟨none, d.queued _ _ _ _ ho _ List.mem_cons_self⟩
      | taken i _ _ => exact ⟨some i, ho⟩
    obtain ⟨got, hgot⟩ := hawait
    obtain ⟨kind, p', ht, hk⟩ := d.awaited _ _ _ hgot
    rw [hreq, Option.some.injEq, Thread.mk.injEq] at ht
    obtain ⟨rfl, -⟩ := ht
    exact (Option.some.inj hk).symm
  subst hkey
  obtain ⟨kind, p', ht, hk⟩ := d.pushed t _ data q hq
  have hconcerns : Concerns rt c kind := by
    cases kind with
    | message w text =>
        simp only [permit, Option.map_eq_some_iff, Prod.mk.injEq] at hk
        obtain ⟨key, hkey, rfl, -⟩ := hk
        exact hkey
    | _ => cases hk
  rcases x.alone t kind p' ht hconcerns with rfl | rfl | hended
  · rw [hreq, Option.some.injEq, Thread.mk.injEq] at ht
    obtain ⟨rfl, -⟩ := ht
    cases hk
  · rfl
  · exact absurd hended
      (not_ended_of_delivery (enter_keeps rt) h₀ hrun calm ho hr (Nat.le_refl _))

variable {w : Sock} {data key : String} {p : Code Out} {dropped : List (Item sig)}
  {pre post : List (Obs (gateway rt))}

/-- At the deletion of `h` its push is behind, and who has got the message by
then is who ever gets it. -/
theorem Exchange.push_before (x : Exchange rt c command body s₀ s h)
    (ht : s.threads[h]? = some ⟨.message w data, p⟩) (hc : Carries rt data c)
    (hs : s.log = pre ++ .cleared h key dropped :: post) :
    ∃ before queue between, pre = before ++ .pushed h (responseKey c) data queue :: between ∧
      receivers h s.log = (queue ++ issuers (responseKey c) between).take 1 ∧
      ∀ u ∈ queue ++ issuers (responseKey c) between,
        ∃ got, Obs.awaited u (responseKey c) got ∈ pre := by
  obtain ⟨ls₀, ls, h₀, hrun, hfull, calm⟩ := x.whole
  have d := run_attributed hfull calm
  obtain ⟨ls₁, l, ls₂, s₁, s₂, heq, h₁, hstep, -, hpre⟩ := exec_split hfull hs
  have calm₁ : ∀ l ∈ ls₁, l.Calm := fun l hl => calm l (by
    rw [heq]
    exact List.mem_append_left _ hl)
  have hpre : s₁.log = pre := hpre
  have hphase : phase (S := sig) .connections h s₁.log = .pushed key := by
    cases hstep with
    | clear hclear _ => exact pushed_of_clear (run_guarded h₁ calm₁) hclear
  obtain ⟨d', queue, hq⟩ := (run_attributed h₁ calm₁).origin h key hphase
  have hq' : Obs.pushed h key d' queue ∈ s.log := by
    rw [hs, ← hpre]
    exact List.mem_append_left _ hq
  obtain ⟨rfl, rfl⟩ := pushed_own d ht hc hq'
  obtain ⟨before, between, hsplit⟩ := List.append_of_mem hq
  refine ⟨before, queue, between, hpre ▸ hsplit, ?_, ?_⟩
  rotate_left
  · intro u hu
    rw [← hpre]
    rcases List.mem_append.mp hu with hu | hu
    · exact ⟨none, (run_attributed h₁ calm₁).queued _ _ _ _ hq u hu⟩
    · obtain ⟨got, hgot⟩ := mem_issuers hu
      exact ⟨got, by simp [hsplit, hgot]⟩
  obtain ⟨hrec, hopen | hclosed⟩ := (run_fated h₁ calm₁).story before h _ _ queue between hsplit
  · have hpost := (d.closed pre h _ dropped post hs).2
    have hcut : receivers h s.log = receivers h s₁.log ++ receivers h post := by
      rw [hs, ← hpre, receivers, List.filterMap_append]
      rfl
    rw [hcut, hpost, List.append_nil, hrec, hopen.2.1]
  · have hspent := hclosed.1
    rw [hphase] at hspent
    cases hspent

/-- Nobody but the request is there to get the message. -/
theorem Exchange.candidate (x : Exchange rt c command body s₀ s h)
    (ht : s.threads[h]? = some ⟨.message w data, p⟩) {before between post : List (Obs (gateway rt))}
    {queue : List Tid}
    (hs : s.log = before ++ .pushed h (responseKey c) data queue :: (between ++ post)) {u : Tid}
    (hu : u ∈ queue ++ issuers (responseKey c) between) : u = s₀.threads.length := by
  obtain ⟨ls₀, ls, h₀, hrun, hfull, calm⟩ := x.whole
  have d := run_attributed hfull calm
  -- the push comes after `s₀`, because `h` does
  have hnot : Obs.pushed h (responseKey c) data queue ∉ s₀.log := by
    intro hm
    have calm₀ : ∀ l ∈ ls₀, l.Calm := fun l hl => calm l (List.mem_append_left _ hl)
    obtain ⟨kind, p', ht', -⟩ := (run_attributed h₀ calm₀).pushed _ _ _ _ hm
    exact absurd (List.getElem?_eq_some_iff.mp ht').choose (Nat.not_lt.mpr (Nat.le_of_lt x.late))
  obtain ⟨log, hlog⟩ := exec_log hrun
  obtain ⟨before', rfl, -⟩ := split_behind (hlog ▸ hs) hnot
  have hended : ¬ Ended s₀ u := by
    intro hend
    rcases List.mem_append.mp hu with hu | hu
    · obtain ⟨ls₁, l, ls₂, s₁, s₂, -, h₁, hstep, -, -⟩ := exec_split hrun hs
      have wf₁ := exec_wf_from (exec_wf h₀) h₁
      exact not_ended_of_queue wf₁ hstep hu (exec_ended (exec_wf h₀) h₁ hend)
    · obtain ⟨got, hgot⟩ := mem_issuers hu
      obtain ⟨b₁, b₂, rfl⟩ := List.append_of_mem hgot
      have hs' : s.log = s₀.log ++ (before' ++ .pushed h (responseKey c) data queue :: b₁) ++
          .awaited u (responseKey c) got :: (b₂ ++ post) := by simp [hs]
      obtain ⟨ls₁, l, ls₂, s₁, s₂, -, h₁, hstep, -, -⟩ := exec_split hrun hs'
      exact not_ended_of_awaited hstep (exec_ended (exec_wf h₀) h₁ hend)
  have hreq : IsRequest s c u := by
    rcases List.mem_append.mp hu with hu | hu
    · have hp : Obs.pushed h (responseKey c) data queue ∈ s.log := by simp [hs]
      exact isRequest_of_awaited d (d.queued _ _ _ _ hp u hu)
    · obtain ⟨got, hgot⟩ := mem_issuers hu
      have hm : Obs.awaited u (responseKey c) got ∈ s.log := by simp [hs, hgot]
      exact isRequest_of_awaited d hm
  obtain ⟨command', body', p', hu'⟩ := hreq
  rcases x.alone u _ p' hu' rfl with hr | rfl | hend
  · exact hr
  · rw [ht, Option.some.injEq, Thread.mk.injEq] at hu'
    cases hu'.1
  · exact absurd hend hended

/-- A request that waits before the deletion, and does not give up before it, is
one of those who can get the message. -/
theorem Exchange.joins (x : Exchange rt c command body s₀ s h)
    {before between post : List (Obs (gateway rt))} {queue : List Tid} {got : Option (Item sig)}
    (hs : s.log = before ++ .pushed h (responseKey c) data queue :: (between ++ post))
    (hexp : Obs.expired s₀.threads.length (responseKey c) ∉ before)
    (hgot : Obs.awaited s₀.threads.length (responseKey c) got ∈
      before ++ .pushed h (responseKey c) data queue :: between) :
    s₀.threads.length ∈ queue ++ issuers (responseKey c) between := by
  obtain ⟨ls₀, ls, h₀, hrun, hfull, calm⟩ := x.whole
  rcases List.mem_append.mp hgot with hgot | hgot
  · -- it waits before the push and still does so then
    obtain ⟨ls₁, l, ls₂, s₁, s₂, heq, h₁, hstep, -, hpre⟩ := exec_split hfull hs
    have hpre : s₁.log = before := hpre
    have calm₁ : ∀ l ∈ ls₁, l.Calm := fun l hl => calm l (by
      rw [heq]
      exact List.mem_append_left _ hl)
    have r₁ := exec_recorded h₁
    have hheld : phase (S := sig) .connections h s₁.log = .held false := by
      cases hstep with
      | pushKeep hpush _ _ => exact (held_of_push (run_guarded h₁ calm₁) hpush).1
      | pushHand hpush _ _ => exact (held_of_push (run_guarded h₁ calm₁) hpush).1
    have hfresh := (run_fated h₁ calm₁).fresh h (by rw [hheld]; rfl)
    have nothing : ∀ o ∈ s₁.log, ∀ t, receiver? t o ≠ some s₀.threads.length := by
      intro o ho t hr
      have hm : o ∈ s.log := by
        rw [hs, ← hpre]
        exact List.mem_append_left _ ho
      obtain rfl := x.deliverer hm hr
      obtain ⟨key, d, q, -, hq⟩ := r₁.delivered o ho _ _ hr
      exact hfresh.2 key d q hq
    rw [← hpre] at hgot hexp
    have hwait : (s₀.threads.length, responseKey c) ∈ s₁.waiting := by
      cases got with
      | some i => exact absurd (by simp [receiver?]) (nothing _ hgot i.pusher)
      | none =>
          rcases r₁.answered _ _ hgot with hwait | ⟨a, ha⟩
          · exact hwait
          · have unserved : ∀ d, a ≠ .got d := by
              rintro d rfl
              obtain ⟨o, ho, t, hr, -⟩ := delivered_of_trace ha
              exact nothing o ho t hr
            rcases unserved_of_trace ha unserved with hexpired | hfailed
            · exact absurd hexpired hexp
            · exact absurd hfailed (exec_not_failed h₁ calm₁ _ _)
    rw [queue_of_pushed hstep]
    exact List.mem_append_left _ (mem_queue.mpr hwait)
  · rcases List.mem_cons.mp hgot with hgot | hgot
    · cases hgot
    · exact List.mem_append_right _ (List.mem_filterMap.mpr ⟨_, hgot, by simp [issuer?]⟩)

theorem Exchange.returned_of_received (x : Exchange rt c command body s₀ s h) {args : List Json}
    {message status : Json} (hone : singleArgs rt command body = some args)
    (ht : s.threads[h]? = some ⟨.message w data, p⟩) (hp : rt.parse data = some message)
    (hsn : message.index "sn" = .ok (.str c)) (hstatus : message.index "result" = .ok status)
    (hrec : s₀.threads.length ∈ receivers h s.log) :
    outcome s s₀.threads.length = some (.answered ⟨200, .single status (.device message)⟩) := by
  obtain ⟨ls₀, ls, h₀, hrun, hfull, calm⟩ := x.whole
  obtain ⟨q, hreq⟩ := x.request
  have hgot := receiver_trace (exec_recorded hfull) (run_attributed hfull calm) ht
    ⟨message, hp, hsn⟩ hrec
  obtain ⟨v, v', prog, henter, hres⟩ := exec_residual hfull hreq
  cases henter
  obtain ⟨q', tr, hq', hend⟩ := (after_post hone hp hstatus).of_mem hres hgot
  rw [hq' rfl] at hend
  have hdone := hend.of_done
  simp only at hdone
  subst hdone
  simp [outcome, hreq]

theorem Exchange.received_of_returned (x : Exchange rt c command body s₀ s h)
    {message status : Json} (hout : outcome s s₀.threads.length =
      some (.answered ⟨200, .single status (.device message)⟩)) :
    s₀.threads.length ∈ receivers h s.log := by
  obtain ⟨ls₀, ls, h₀, hrun, hfull, calm⟩ := x.whole
  obtain ⟨q, hreq⟩ := x.request
  obtain ⟨results, hreturned, hshows⟩ := exec_returned hfull hreq
  have hbrought := hreturned.brought hfull
  cases (hshows _ hout rfl).2 with
  | single _ =>
      cases hsenders : senders s₀.threads.length s.log with
      | nil =>
          rw [hsenders] at hbrought
          cases hbrought
      | cons t _ =>
          have ht := mem_senders.mp (hsenders ▸ List.mem_cons_self)
          obtain ⟨o, ho, hr⟩ := List.mem_filterMap.mp ht
          obtain rfl := x.deliverer ho hr
          exact ht

/-- The request returns the message exactly if it issues its BLPOP before the
handler's DEL. -/
theorem reply_returned_iff (x : Exchange rt c command body s₀ s h) {args : List Json}
    {message : Json} (hone : singleArgs rt command body = some args)
    (ht : s.threads[h]? = some ⟨.message w data, p⟩) (hp : rt.parse data = some message)
    (hsn : message.index "sn" = .ok (.str c))
    (hs : s.log = pre ++ .cleared h key dropped :: post)
    (hexp : Obs.expired s₀.threads.length (responseKey c) ∉ pre) :
    (∃ status, outcome s s₀.threads.length =
      some (.answered ⟨200, .single status (.device message)⟩)) ↔
    ∃ got, Obs.awaited s₀.threads.length (responseKey c) got ∈ pre := by
  obtain ⟨before, queue, between, hpre, hrec, hall⟩ := x.push_before ht ⟨message, hp, hsn⟩ hs
  constructor
  · rintro ⟨status, hout⟩
    have hmem := x.received_of_returned hout
    rw [hrec] at hmem
    exact hall _ (List.mem_of_mem_take hmem)
  · rintro ⟨got, hgot⟩
    rw [hpre] at hgot hexp
    have hs' : s.log = before ++ .pushed h (responseKey c) data queue ::
        (between ++ .cleared h key dropped :: post) := by simp [hs, hpre]
    have hexp' : Obs.expired s₀.threads.length (responseKey c) ∉ before := fun hm =>
      hexp (List.mem_append_left _ hm)
    have hjoin := x.joins hs' hexp' hgot
    obtain ⟨u, us, hus⟩ := List.exists_cons_of_ne_nil (List.ne_nil_of_mem hjoin)
    have hu := x.candidate ht hs' (u := u) (by rw [hus]; exact List.mem_cons_self)
    obtain ⟨status, hstatus⟩ : ∃ status, message.index "result" = .ok status := by
      cases message with
      | obj fields => exact ⟨_, rfl⟩
      | str text => exact ⟨_, rfl⟩
      | _ => cases hsn
    refine ⟨status, x.returned_of_received hone ht hp hsn hstatus ?_⟩
    rw [hrec, hus, hu]
    exact List.mem_cons_self

end Exchange

/-- The frame of `r` is out before the handler `t` starts. -/
def FrameFirst {rt : Runtime} (r t : Tid) (log : List (Obs (gateway rt))) : Prop :=
  ∃ (a b : List (Obs (gateway rt))) (ws : Sock) (doc : Json) (kind : Kind),
    log = a ++ .called r (.wsSend (some ws) doc) .written :: b ∧ .entered t kind ∈ b

theorem kind_at {rt : Runtime} {s : State (gateway rt)} {t : Tid} {kind : Kind} {p : Code Out}
    (h : s.threads[t]? = some ⟨kind, p⟩) : (s.threads.map Thread.kind)[t]? = some kind := by
  simp [h]

/-- After the registration of the reader, one request and one message are alone
on its channel. -/
theorem exchange_of_run {ls : List (Label (gateway reader))} {s : State (gateway reader)}
    (h : exec (after registration) (.enter (.post "A" "user_list" "") :: ls) = some s)
    (calm : ∀ l ∈ ls, l.Calm)
    (hkinds : s.threads.map Thread.kind = [.opened 0, .message 0 "reg", .post "A" "user_list" "",
      .message 0 "reply"]) :
    Exchange reader "A" "user_list" "" (after registration) s 3 where
  past := ⟨registration, rfl, by decide⟩
  run := ⟨ls, h, calm⟩
  alone := by
    intro t kind p ht hc
    have hk := kind_at ht
    rw [hkinds] at hk
    match t with
    | 0 =>
        cases hk
        exact hc.elim
    | 1 => exact .inr (.inr ⟨_, rfl, trivial⟩)
    | 2 => exact .inl rfl
    | 3 => exact .inr (.inl rfl)
    | t + 4 => simp at hk
  late := by decide

/-- The reply is handled between the frame and the BLPOP of its request. -/
def lost : List (Label (gateway reader)) :=
  turns 2 3 ++ .enter (.message 0 "reply") :: turns 3 3 ++ turns 2 1 ++ [.expire 2]

def lostState : State (gateway reader) :=
  after (registration ++ .enter (.post "A" "user_list" "") :: lost)

/-- The frame is written, the reply is handled after it and long before the
timeout, and still the request ends with the timeout error. -/
theorem reply_lost : ∃ pre post dropped,
    Exchange reader "A" "user_list" "" (after registration) lostState 3 ∧
    singleArgs reader "user_list" "" = some [] ∧
    (∃ p, lostState.threads[3]? = some ⟨.message 0 "reply", p⟩) ∧ Carries reader "reply" "A" ∧
    lostState.log = pre ++ .cleared 3 (responseKey "A") dropped :: post ∧ FrameFirst 2 3 pre ∧
    Obs.expired 2 (responseKey "A") ∉ pre ∧
    outcome lostState 2 = some (.answered ⟨200, .single .null noAnswer⟩) := by
  have run : exec (after registration) (.enter (.post "A" "user_list" "") :: lost) =
      some lostState := rfl
  have quiet : (lostState.log.take 33).all (fun
      | .expired _ _ => false
      | _ => true) = true := rfl
  refine ⟨lostState.log.take 33, lostState.log.drop 34, [⟨3, "reply"⟩],
    exchange_of_run run (by decide) rfl, rfl, ⟨_, rfl⟩, ⟨_, rfl, rfl⟩, rfl, ?_, ?_, rfl⟩
  · exact ⟨lostState.log.take 28, (lostState.log.take 33).drop 29, 0, _, _, rfl,
      List.mem_cons_of_mem _ List.mem_cons_self⟩
  · intro hm
    cases List.all_eq_true.mp quiet _ hm

/-- The reply is handled while its request is blocked. -/
def inTime : List (Label (gateway reader)) :=
  turns 2 4 ++ .enter (.message 0 "reply") :: turns 3 3

def inTimeState : State (gateway reader) :=
  after (registration ++ .enter (.post "A" "user_list" "") :: inTime)

theorem reply_returned_inTime : ∃ status message, outcome inTimeState 2 =
    some (.answered ⟨200, .single status (.device message)⟩) ∧
      reader.parse "reply" = some message := by
  have run : exec (after registration) (.enter (.post "A" "user_list" "") :: inTime) =
      some inTimeState := rfl
  have quiet : (inTimeState.log.take 34).all (fun
      | .expired _ _ => false
      | _ => true) = true := rfl
  have hs : inTimeState.log = inTimeState.log.take 34 ++
      .cleared 3 (responseKey "A") [] :: inTimeState.log.drop 35 := rfl
  have hexp : Obs.expired 2 (responseKey "A") ∉ inTimeState.log.take 34 := by
    intro hm
    cases List.all_eq_true.mp quiet _ hm
  have hgot : Obs.awaited 2 (responseKey "A") none ∈ inTimeState.log.take 34 :=
    List.mem_of_getElem? (i := 30) rfl
  obtain ⟨status, hout⟩ := (reply_returned_iff (exchange_of_run run (by decide) rfl)
    (show singleArgs reader "user_list" "" = some [] from rfl) (by rfl) rfl rfl hs hexp).mpr
      ⟨none, hgot⟩
  exact ⟨status, _, hout, rfl⟩

end EvoGw.LostReply
