import EvoGw.HandoffFate

/-!
# Where delivered elements come from

Facts about the lists of a pool that need no discipline: every element of a list
and every delivered element was pushed before, every blocked client has issued
the wait it is blocked in, and a wait that was issued is answered or still
blocks. The last section adds what the hand-off discipline makes of them.
-/
namespace EvoGw.ListHistories
open ThreadPrograms ThreadPools PoolTraces LockedHandoff HandoffFate

variable {S : Signature} {M : Semantics S} {s s' : State M} {l : Label M} {o : Obs M}

/-- The element of `h` which `r` gets in this step, with the list it comes from. -/
inductive Delivers (h r : Tid) (key : S.Key) (d : S.Data) : Obs M → Prop
  | handed (queue : List Tid) : h ≠ r → Delivers h r key d (.pushed h key d (r :: queue))
  | taken (i : Item S) : i.pusher = h → i.data = d → Delivers h r key d (.awaited r key (some i))

theorem Delivers.receiver {h r : Tid} {key : S.Key} {d : S.Data} (hd : Delivers h r key d o) :
    receiver? h o = some r := by
  cases hd with
  | handed queue _ => simp [receiver?]
  | taken i hi _ => simp [receiver?, hi]

/-- The wait of `r` is answered with the element. -/
theorem Delivers.event {h r : Tid} {key : S.Key} {d : S.Data} (hd : Delivers h r key d o) :
    events r o = [⟨.await key, .got d⟩] := by
  cases hd with
  | handed queue hne => simp [events, hne]
  | taken i _ hi => simp [events, hi]

/-- What the lists, the blocked clients and the log have to do with each other. -/
structure Recorded (s : State M) : Prop where
  items : ∀ key i, i ∈ s.lists key → ∃ q, Obs.pushed i.pusher key i.data q ∈ s.log
  waiting : ∀ t key, (t, key) ∈ s.waiting → Obs.awaited t key none ∈ s.log
  answered : ∀ t key, Obs.awaited t key none ∈ s.log →
    (t, key) ∈ s.waiting ∨ ∃ a, ⟨.await key, a⟩ ∈ trace t s.log
  delivered : ∀ o ∈ s.log, ∀ h r, receiver? h o = some r →
    ∃ key d q, Delivers h r key d o ∧ Obs.pushed h key d q ∈ s.log

theorem recorded_initial (w : M.World) : Recorded (initial w : State M) :=
  ⟨by simp [initial], by simp [initial], by simp [initial], by simp [initial]⟩

theorem step_items_pushed (c : Recorded s) (h : Step s l o s') (key : S.Key) (i : Item S)
    (hi : i ∈ s'.lists key) : ∃ q, Obs.pushed i.pusher key i.data q ∈ s'.log := by
  rw [step_log h]
  rcases step_item h hi with hm | ⟨rfl, -⟩
  · obtain ⟨q, hq⟩ := c.items key i hm
    exact ⟨q, List.mem_append_left _ hq⟩
  · exact ⟨[], List.mem_append_right _ List.mem_cons_self⟩

theorem step_waiting_awaited (c : Recorded s) (h : Step s l o s') (t : Tid) (key : S.Key)
    (ht : (t, key) ∈ s'.waiting) : Obs.awaited t key none ∈ s'.log := by
  rw [step_log h]
  have old : (t, key) ∈ s.waiting → Obs.awaited t key none ∈ s.log ++ [o] := fun hm =>
    List.mem_append_left _ (c.waiting t key hm)
  cases h with
  | awaitBlock _ _ _ _ =>
      rcases List.mem_append.mp ht with hm | hm
      · exact old hm
      · obtain ⟨rfl, rfl⟩ := Prod.mk.inj (List.mem_singleton.mp hm)
        exact List.mem_append_right _ List.mem_cons_self
  | pushHand _ _ _ => exact old (List.mem_filter.mp ht).1
  | expire _ _ => exact old (List.mem_filter.mp ht).1
  | _ => exact old ht

/-- A blocked client leaves only with an answer. -/
theorem step_released (wf : Wf s) (h : Step s l o s') {t : Tid} {key : S.Key}
    (ht : (t, key) ∈ s.waiting) : (t, key) ∈ s'.waiting ∨ ∃ a, events t o = [⟨.await key, a⟩] := by
  obtain ⟨kind, k, hprog⟩ := wf.waits t key ht
  cases h with
  | @pushHand u r q choice ukind ukey d uk hu _ hq =>
      obtain ⟨rkind, rk, hr⟩ :=
        wf.waits r ukey (mem_queue.mp (by rw [hq]; exact List.mem_cons_self))
      by_cases htr : t = r
      · subst htr
        have hne : u ≠ t := (wf.ne_running ht hu (by simp)).symm
        rw [hprog, Option.some.injEq, Thread.mk.injEq] at hr
        obtain ⟨-, hact⟩ := hr
        injection hact with hkey
        cases hkey
        exact .inr ⟨.got d, by simp [events, hne]⟩
      · exact .inl (List.mem_filter.mpr ⟨ht, by simpa using htr⟩)
  | @expire u ukind ukey uk hu _ =>
      by_cases htu : t = u
      · subst htu
        rw [hprog, Option.some.injEq, Thread.mk.injEq] at hu
        obtain ⟨-, hact⟩ := hu
        injection hact with hkey
        cases hkey
        exact .inr ⟨.timedOut, by simp [events]⟩
      · exact .inl (List.mem_filter.mpr ⟨ht, by simpa using htu⟩)
  | awaitBlock _ _ _ _ => exact .inl (List.mem_append_left _ ht)
  | _ => exact .inl ht

theorem step_answered (wf : Wf s) (c : Recorded s) (h : Step s l o s') (t : Tid) (key : S.Key)
    (ht : Obs.awaited t key none ∈ s'.log) :
    (t, key) ∈ s'.waiting ∨ ∃ a, ⟨.await key, a⟩ ∈ trace t s'.log := by
  rw [step_log h] at ht ⊢
  rw [trace_append, trace_singleton]
  rcases List.mem_append.mp ht with ht | ht
  · rcases c.answered t key ht with hw | ⟨a, ha⟩
    · rcases step_released wf h hw with hw' | ⟨a, ha⟩
      · exact .inl hw'
      · exact .inr ⟨a, List.mem_append_right _ (by rw [ha]; exact List.mem_cons_self)⟩
    · exact .inr ⟨a, List.mem_append_left _ ha⟩
  · obtain rfl := List.mem_singleton.mp ht
    cases h with
    | awaitBlock _ _ _ _ => exact .inl (List.mem_append_right _ List.mem_cons_self)

theorem step_delivers (wf : Wf s) (c : Recorded s) (h : Step s l o s') {p r : Tid}
    (hr : receiver? p o = some r) :
    ∃ key d q, Delivers p r key d o ∧ Obs.pushed p key d q ∈ s'.log := by
  cases h with
  | @pushHand t _ q choice kind key d k ht _ hq =>
      simp only [receiver?] at hr
      split_ifs at hr with htp
      subst htp
      cases hr
      have hne := wf.ne_running (mem_queue.mp (by rw [hq]; exact List.mem_cons_self)) ht (by simp)
      exact ⟨key, d, r :: q, .handed q hne.symm, by simp⟩
  | @awaitTake t choice kind key i is k ht _ _ hi =>
      simp only [receiver?] at hr
      split_ifs at hr with hip
      subst hip
      cases hr
      obtain ⟨q, hq⟩ := c.items key i (by rw [hi]; exact List.mem_cons_self)
      exact ⟨key, i.data, q, .taken i rfl rfl, by simp [hq]⟩
  | _ => simp [receiver?] at hr

theorem step_recorded (wf : Wf s) (c : Recorded s) (h : Step s l o s') : Recorded s' where
  items := step_items_pushed c h
  waiting := step_waiting_awaited c h
  answered := step_answered wf c h
  delivered := by
    intro o' ho' p r hr
    have hlog := step_log h
    rw [hlog] at ho'
    rcases List.mem_append.mp ho' with ho' | ho'
    · obtain ⟨key, d, q, hd, hq⟩ := c.delivered o' ho' p r hr
      exact ⟨key, d, q, hd, by rw [hlog]; exact List.mem_append_left _ hq⟩
    · obtain rfl := List.mem_singleton.mp ho'
      exact step_delivers wf c h hr

theorem exec_recorded {w : M.World} {ls : List (Label M)} (h : exec (initial w) ls = some s) :
    Recorded s :=
  exec_induction (P := fun _ s => Recorded s) (recorded_initial w)
    (fun _ _ _ _ _ hs ih hstep => step_recorded (exec_wf hs) ih hstep) h

/-- The answers which one thread gets to its waits are deliveries to it. -/
theorem delivered_of_trace {log : List (Obs M)} {t : Tid} {key : S.Key} {d : S.Data}
    (h : ⟨.await key, .got d⟩ ∈ trace t log) : ∃ o ∈ log, ∃ p, receiver? p o = some t ∧
      events t o = [⟨.await key, .got d⟩] := by
  obtain ⟨o, ho, he⟩ := List.mem_flatMap.mp h
  refine ⟨o, ho, ?_⟩
  cases o with
  | pushed u key' d' queue =>
      simp only [events] at he ⊢
      split_ifs at he ⊢ with hu hq
      · simp at he
      · cases queue with
        | nil => simp at hq
        | cons r q =>
            simp only [List.head?_cons, Option.some.injEq] at hq
            subst hq
            exact ⟨u, by simp [receiver?], (List.mem_singleton.mp he) ▸ rfl⟩
      · simp at he
  | awaited u key' got =>
      cases got with
      | none => simp [events] at he
      | some i =>
          simp only [events] at he ⊢
          split_ifs at he ⊢ with hu
          · subst hu
            exact ⟨i.pusher, by simp [receiver?], (List.mem_singleton.mp he) ▸ rfl⟩
          · simp at he
  | entered u kind => simp [events] at he
  | _ =>
      simp only [events] at he
      split_ifs at he <;> simp at he

/-- What a thread gets was pushed. -/
theorem pushed_of_got {w : M.World} {ls : List (Label M)} (h : exec (initial w) ls = some s)
    {t : Tid} {key : S.Key} {d : S.Data} (hd : ⟨.await key, .got d⟩ ∈ trace t s.log) :
    ∃ u q, Obs.pushed u key d q ∈ s.log := by
  obtain ⟨o, ho, u, hr, he⟩ := delivered_of_trace hd
  obtain ⟨key', d', q, hdel, hq⟩ := (exec_recorded h).delivered o ho u t hr
  have heq := hdel.event.symm.trans he
  simp only [List.cons.injEq, Event.mk.injEq, Prim.await.injEq, and_true] at heq
  obtain ⟨rfl, hgot⟩ := heq
  cases hgot
  exact ⟨u, q, hq⟩

/-- A wait that has ended without an element has timed out or failed. -/
theorem unserved_of_trace {log : List (Obs M)} {t : Tid} {key : S.Key} {a : Awaited S.Data}
    (h : ⟨.await key, a⟩ ∈ trace t log) (ha : ∀ d, a ≠ .got d) :
    Obs.expired t key ∈ log ∨ Obs.awaitFailed t key ∈ log := by
  obtain ⟨o, ho, he⟩ := List.mem_flatMap.mp h
  cases o with
  | expired u key' =>
      obtain ⟨rfl, hmem⟩ := List.mem_ite_nil_right.mp he
      cases List.mem_singleton.mp hmem
      exact .inl ho
  | awaitFailed u key' =>
      obtain ⟨rfl, hmem⟩ := List.mem_ite_nil_right.mp he
      cases List.mem_singleton.mp hmem
      exact .inr ho
  | pushed u key' d queue =>
      simp only [events] at he
      split_ifs at he
      · simp at he
      · cases List.mem_singleton.mp he
        exact absurd rfl (ha d)
      · simp at he
  | awaited u key' got =>
      cases got with
      | none => simp [events] at he
      | some i =>
          simp only [events] at he
          split_ifs at he
          · cases List.mem_singleton.mp he
            exact absurd rfl (ha i.data)
          · simp at he
  | entered u kind => simp [events] at he
  | _ =>
      simp only [events] at he
      split_ifs at he <;> simp at he

theorem exec_not_failed {w : M.World} {ls : List (Label M)} (h : exec (initial w) ls = some s)
    (hls : ∀ l ∈ ls, l.Calm) (t : Tid) (key : S.Key) : Obs.awaitFailed t key ∉ s.log := by
  refine exec_induction (P := fun ls s => (∀ l ∈ ls, l.Calm) → Obs.awaitFailed t key ∉ s.log)
    (by simp [initial]) ?_ h hls
  intro ls s l o s' _ ih hstep hls hm
  have hcalm := List.forall_mem_append.mp hls
  rw [step_log hstep] at hm
  rcases List.mem_append.mp hm with hm | hm
  · exact ih hcalm.1 hm
  · have hl := hcalm.2 l List.mem_cons_self
    obtain rfl := List.mem_singleton.mp hm
    cases hstep with
    | awaitFail _ _ hf =>
        rw [Label.Calm, hf] at hl
        cases hl

/-- A thread that waits or is blocked has not ended. -/
theorem not_ended_of_awaited {t : Tid} {key : S.Key} {got : Option (Item S)}
    (h : Step s l (.awaited t key got) s') : ¬ Ended s t := by
  intro ht
  cases h with
  | awaitBlock hrun _ _ _ => exact ht.not_running hrun
  | awaitTake hrun _ _ _ => exact ht.not_running hrun

theorem not_ended_of_queue (wf : Wf s) {t r : Tid} {key : S.Key} {d : S.Data} {q : List Tid}
    (h : Step s l (.pushed t key d q) s') (hr : r ∈ q) : ¬ Ended s r := by
  intro ht
  cases h with
  | pushKeep _ _ _ => cases hr
  | pushHand _ _ hq =>
      obtain ⟨kind, k, hrun⟩ := wf.waits r key (mem_queue.mp (hq ▸ hr))
      exact ht.not_running hrun

theorem queue_of_pushed {t : Tid} {key : S.Key} {d : S.Data} {q : List Tid}
    (h : Step s l (.pushed t key d q) s') : q = s.queue key := by
  cases h with
  | pushKeep _ _ hq => exact hq.symm
  | pushHand _ _ hq => exact hq.symm

section Attributed
variable {m : S.Mutex} {permit : M.Kind → Permit S}

/-- Who pushes, waits and deletes in a disciplined pool. -/
structure Attributed (m : S.Mutex) (permit : M.Kind → Permit S) (s : State M) : Prop where
  origin : ∀ t key, phase m t s.log = .pushed key → ∃ d q, Obs.pushed t key d q ∈ s.log
  pushed : ∀ h key d q, Obs.pushed h key d q ∈ s.log →
    ∃ kind p, s.threads[h]? = some ⟨kind, p⟩ ∧ (permit kind).pushes = some (key, d)
  awaited : ∀ t key got, Obs.awaited t key got ∈ s.log →
    ∃ kind p, s.threads[t]? = some ⟨kind, p⟩ ∧ (permit kind).awaits = some key
  queued : ∀ h key d q, Obs.pushed h key d q ∈ s.log → ∀ r ∈ q, Obs.awaited r key none ∈ s.log
  cleared : ∀ h key dropped, Obs.cleared h key dropped ∈ s.log → ∀ i ∈ dropped, i.pusher = h
  closed : ∀ pre h key dropped (post : List (Obs M)),
    s.log = pre ++ .cleared h key dropped :: post →
    (phase m h s.log).isSpent = true ∧ receivers h post = []

theorem attributed_initial (w : M.World) : Attributed m permit (initial w : State M) :=
  ⟨by simp [initial, phase, trace], by simp [initial], by simp [initial], by simp [initial],
    by simp [initial], by simp [initial]⟩

theorem awaits_of_await (g : Guarded m permit s) {t : Tid} {kind : M.Kind} {key : S.Key}
    {k : Awaited S.Data → Program S M.Out}
    (ht : s.threads[t]? = some ⟨kind, .act (.await key) k⟩) :
    (permit kind).awaits = some key := by
  have ha := (g.keeps t _ ht).1
  cases hph : phase m t s.log with
  | idle b =>
      rw [hph] at ha
      exact ha
  | held b =>
      rw [hph] at ha
      exact ha.elim
  | pushed key' =>
      rw [hph] at ha
      exact ha.elim

/-- The thread which causes an observation about a list is permitted to. -/
theorem step_permitted (g : Guarded m permit s) (h : Step s l o s') :
    (∀ t key d q, o = .pushed t key d q →
      ∃ kind p, s.threads[t]? = some ⟨kind, p⟩ ∧ (permit kind).pushes = some (key, d)) ∧
    (∀ t key got, o = .awaited t key got →
      ∃ kind p, s.threads[t]? = some ⟨kind, p⟩ ∧ (permit kind).awaits = some key) := by
  cases h with
  | pushKeep ht _ _ =>
      refine ⟨?_, by simp⟩
      rintro t key d q ⟨⟩
      exact ⟨_, _, ht, (held_of_push g ht).2⟩
  | pushHand ht _ _ =>
      refine ⟨?_, by simp⟩
      rintro t key d q ⟨⟩
      exact ⟨_, _, ht, (held_of_push g ht).2⟩
  | awaitBlock ht _ _ _ =>
      refine ⟨by simp, ?_⟩
      rintro t key got ⟨⟩
      exact ⟨_, _, ht, awaits_of_await g ht⟩
  | awaitTake ht _ _ _ =>
      refine ⟨by simp, ?_⟩
      rintro t key got ⟨⟩
      exact ⟨_, _, ht, awaits_of_await g ht⟩
  | _ => exact ⟨by simp, by simp⟩

theorem kind_stays (wf : Wf s) (h : Step s l o s') {t : Tid} {P : M.Kind → Prop}
    (ht : ∃ kind p, s.threads[t]? = some ⟨kind, p⟩ ∧ P kind) :
    ∃ kind p, s'.threads[t]? = some ⟨kind, p⟩ ∧ P kind := by
  obtain ⟨kind, p, ht, hP⟩ := ht
  obtain ⟨p', hp'⟩ := step_kind wf h ht
  exact ⟨kind, p', hp', hP⟩

theorem pushed_of_events {u : Tid} {key : S.Key} {d : S.Data}
    (h : events u o = [⟨.push key d, true⟩]) : ∃ q, o = .pushed u key d q := by
  cases o with
  | pushed t key' d' q =>
      simp only [events] at h
      split_ifs at h with ht
      · simp only [List.cons.injEq, Event.mk.injEq, Prim.push.injEq] at h
        obtain ⟨⟨⟨rfl, rfl⟩, -⟩, -⟩ := h
        exact ⟨q, by rw [ht]⟩
      · simp at h
  | pushFailed t key' d' =>
      simp only [events] at h
      split_ifs at h
      simp only [List.cons.injEq, Event.mk.injEq, Prim.push.injEq] at h
      obtain ⟨⟨⟨rfl, rfl⟩, hr⟩, -⟩ := h
      simp at hr
  | awaited t key' got =>
      cases got with
      | none => simp [events] at h
      | some i =>
          simp only [events] at h
          split_ifs at h
          simp at h
  | entered t kind => simp [events] at h
  | _ =>
      simp only [events] at h
      split_ifs at h
      simp at h

/-- Only a push leads to the phase between push and deletion. -/
theorem pushed_next {permit : Permit S} {ph : Phase S} {p : Prim S} {key : S.Key}
    (ha : Allowed m permit ph p) (h : next m ph p = .pushed key) : ∃ d, p = .push key d := by
  cases ph with
  | idle b =>
      cases p with
      | acquire m' =>
          simp only [next] at h
          split_ifs at h
      | _ => cases h
  | held b =>
      cases p with
      | release m' =>
          simp only [next] at h
          split_ifs at h
      | push key' d =>
          obtain rfl := Phase.pushed.inj h
          exact ⟨d, rfl⟩
      | _ => cases h
  | pushed key' =>
      cases p with
      | clear key'' => cases h
      | _ => exact ha.elim

theorem step_origin (g : Guarded m permit s) (c : Attributed m permit s) (h : Step s l o s')
    (hl : l.Calm) {t : Tid} {key : S.Key} (ht : phase m t s'.log = .pushed key) :
    ∃ d q, Obs.pushed t key d q ∈ s'.log := by
  have hlog := step_log h
  rcases step_phase g h t with ⟨-, hp⟩ | ⟨kind, p, k, r, -, he, ha, hp⟩
  · obtain ⟨d, q, hq⟩ := c.origin t key (hp ▸ ht)
    exact ⟨d, q, by rw [hlog]; exact List.mem_append_left _ hq⟩
  · obtain ⟨d, rfl⟩ := pushed_next ha (hp ▸ ht)
    obtain rfl : r = true := granted_of_calm h hl he
    obtain ⟨q, rfl⟩ := pushed_of_events he
    exact ⟨d, q, by rw [hlog]; exact List.mem_append_right _ List.mem_cons_self⟩

theorem step_queued (c : Recorded s) (h : Step s l o s') {t : Tid} {key : S.Key} {d : S.Data}
    {q : List Tid} (ho : o = .pushed t key d q) {r : Tid} (hr : r ∈ q) :
    Obs.awaited r key none ∈ s.log := by
  subst ho
  cases h with
  | pushKeep _ _ _ => cases hr
  | pushHand _ _ hq => exact c.waiting r key (mem_queue.mp (hq ▸ hr))

/-- A deletion removes nothing but the element of the thread that deletes. -/
theorem step_cleared_own (g : Guarded m permit s) (h : Step s l o s') {t : Tid} {key : S.Key}
    {dropped : List (Item S)} (ho : o = .cleared t key dropped) {i : Item S} (hi : i ∈ dropped) :
    i.pusher = t := by
  subst ho
  cases h with
  | clear ht _ =>
      have hp := g.items key i hi
      exact g.pushed_unique (pushed_of_clear g ht) (by rw [hp]; rfl)

theorem step_closed (g : Guarded m permit s) (c : Attributed m permit s) (h : Step s l o s')
    (hl : l.Calm) {pre post : List (Obs M)} {t : Tid} {key : S.Key} {dropped : List (Item S)}
    (hsplit : s'.log = pre ++ .cleared t key dropped :: post) :
    (phase m t s'.log).isSpent = true ∧ receivers t post = [] := by
  have hlog := step_log h
  have hd := step_deed g h hl
  rw [hlog] at hsplit
  rcases split_snoc hsplit with ⟨rfl, -, rfl⟩ | ⟨post', rfl, hold⟩
  · cases hd with
    | quiet _ _ _ hclr _ _ => simpa [clears] using hclr t
    | clear hp =>
        refine ⟨?_, rfl⟩
        rw [hlog, phase_of_single (e := ⟨.clear key, true⟩) (by simp [events]), hp]
        rfl
  · obtain ⟨hspent, hnil⟩ := c.closed pre t key dropped post' hold
    refine ⟨isSpent_of_step g h hspent, ?_⟩
    rw [receivers_snoc, hnil, receiver?_none g hd]
    · rfl
    · intro key' hp
      rw [hp] at hspent
      cases hspent
    · rintro key' d' q rfl
      cases hd with
      | quiet _ _ _ _ hne _ => exact hne _ _ _ _ rfl
      | push hh _ _ =>
          rw [hh] at hspent
          cases hspent

theorem step_attributed (g : Guarded m permit s) (r : Recorded s) (c : Attributed m permit s)
    (h : Step s l o s') (hl : l.Calm) : Attributed m permit s' := by
  have hlog := step_log h
  have hperm := step_permitted g h
  refine ⟨fun _ _ ht => step_origin g c h hl ht, ?_, ?_, ?_, ?_,
    fun _ _ _ _ _ hsplit => step_closed g c h hl hsplit⟩
  · intro t key d q ho
    rw [hlog] at ho
    rcases List.mem_append.mp ho with ho | ho
    · exact kind_stays g.wf h (c.pushed t key d q ho)
    · exact kind_stays g.wf h (hperm.1 t key d q (List.mem_singleton.mp ho).symm)
  · intro t key got ho
    rw [hlog] at ho
    rcases List.mem_append.mp ho with ho | ho
    · exact kind_stays g.wf h (c.awaited t key got ho)
    · exact kind_stays g.wf h (hperm.2 t key got (List.mem_singleton.mp ho).symm)
  · intro t key d q ho u hu
    rw [hlog] at ho ⊢
    apply List.mem_append_left
    rcases List.mem_append.mp ho with ho | ho
    · exact c.queued t key d q ho u hu
    · exact step_queued r h (List.mem_singleton.mp ho).symm hu
  · intro t key dropped ho i hi
    rw [hlog] at ho
    rcases List.mem_append.mp ho with ho | ho
    · exact c.cleared t key dropped ho i hi
    · exact step_cleared_own g h (List.mem_singleton.mp ho).symm hi

/-- An ended thread is outside the mutex and delivers nothing any more. -/
theorem receiver?_ended (g : Guarded m permit s) (h : Step s l o s') {t : Tid} (ht : Ended s t) :
    receiver? t o = none := by
  have hidle : (phase m t s.log).isIdle = true := by
    obtain ⟨⟨kind, p⟩, hth, hfin⟩ := ht
    have hk := g.keeps t _ hth
    cases p with
    | done a => exact hk
    | raise e => exact hk
    | act p k => exact hfin.elim
  cases h with
  | @pushHand u _ _ _ _ _ _ _ hu _ _ =>
      have hne : u ≠ t := by
        rintro rfl
        exact ht.not_running hu
      simp [receiver?, hne]
  | @awaitTake _ _ _ key i is _ _ _ _ hcons =>
      have hp := pushed_of_take g hcons
      have hne : i.pusher ≠ t := by
        rintro rfl
        rw [hp] at hidle
        cases hidle
      simp [receiver?, hne]
  | _ => rfl

theorem exec_attributed (henter : ∀ w t kind w' p, M.enter w t kind = some (w', p) →
      Keeps m (permit kind) IsIdle (.idle false) p)
    {w : M.World} {ls : List (Label M)} (h : exec (initial w) ls = some s)
    (hls : ∀ l ∈ ls, l.Calm) : Attributed m permit s := by
  refine exec_induction (P := fun ls s => (∀ l ∈ ls, l.Calm) → Attributed m permit s)
    (fun _ => attributed_initial w) ?_ h hls
  intro ls s l o s' hs ih hstep hls
  have hcalm := List.forall_mem_append.mp hls
  exact step_attributed (exec_guarded henter hs hcalm.1) (exec_recorded hs) (ih hcalm.1) hstep
    (hcalm.2 l List.mem_cons_self)

/-- A thread that enters later gets nothing from one that had ended before. -/
theorem not_ended_of_delivery (henter : ∀ w t kind w' p, M.enter w t kind = some (w', p) →
      Keeps m (permit kind) IsIdle (.idle false) p)
    {w : M.World} {s₀ : State M} {ls₀ ls : List (Label M)} (h₀ : exec (initial w) ls₀ = some s₀)
    (h : exec s₀ ls = some s) (hls : ∀ l ∈ ls₀ ++ ls, l.Calm) {t u : Tid} (ho : o ∈ s.log)
    (hr : receiver? t o = some u) (hu : s₀.threads.length ≤ u) : ¬ Ended s₀ t := by
  intro ht
  have hfull : exec (initial w) (ls₀ ++ ls) = some s := by rw [exec_append, h₀]; exact h
  obtain ⟨key, d, q, hd, -⟩ := (exec_recorded hfull).delivered o ho t u hr
  have hnot : o ∉ s₀.log := by
    intro hm
    have hev : ⟨.await key, .got d⟩ ∈ trace u s₀.log :=
      List.mem_flatMap.mpr ⟨o, hm, by rw [hd.event]; exact List.mem_cons_self⟩
    rw [exec_absent h₀ hu] at hev
    cases hev
  obtain ⟨log, hlog⟩ := exec_log h
  obtain ⟨pre, post, hsplit⟩ := List.append_of_mem ho
  obtain ⟨pre', rfl, hlog'⟩ := split_behind (hlog ▸ hsplit) hnot
  obtain ⟨ls₁, l, ls₂, s₁, s₂, rfl, h₁, hstep, -, -⟩ := exec_split h hsplit
  have hreach : exec (initial w) (ls₀ ++ ls₁) = some s₁ := by rw [exec_append, h₀]; exact h₁
  have hcalm : ∀ l ∈ ls₀ ++ ls₁, l.Calm := fun l hl => hls l (by
    rw [← List.append_assoc]
    exact List.mem_append_left _ hl)
  have hnone := receiver?_ended (exec_guarded henter hreach hcalm) hstep
    (exec_ended (exec_wf h₀) h₁ ht)
  rw [hr] at hnone
  cases hnone

end Attributed

end EvoGw.ListHistories
