import EvoGw.Deliveries

/-!
# The order of waits and pushes on one key

A push serves the client that has been blocked longest. If the pushes on a key
never outnumber the waits, and no client gives up, every push finds a client. The
list of the key then stays empty and the clients are served in the order of their
waits: the deliveries pair the first wait with the first push, the second with the
second, and so on. Steps on other keys do not matter, and the store may refuse.

All orders are read off the log behind a given beginning, at which the key is idle.
-/
namespace EvoGw.WaitOrder
open ThreadPrograms ThreadPools PoolTraces HandoffFate Deliveries

variable {S : Signature} {M : Semantics S}

/-- The threads that have issued a wait on the key, in order. -/
def waiters (key : S.Key) (base log : List (Obs M)) : List Tid :=
  issuers key (log.drop base.length)

def pusher? (key : S.Key) : Obs M → Option Tid
  | .pushed t key' _ _ => if key' = key then some t else none
  | _ => none

/-- The threads that have pushed onto the key, in order. -/
def pushers (key : S.Key) (base log : List (Obs M)) : List Tid :=
  (log.drop base.length).filterMap (pusher? key)

def handed? (key : S.Key) (o : Obs M) : Option (Tid × Tid) :=
  match delivered? o with
  | some x => if x.key = key then some (x.receiver, x.sender) else none
  | none => none

/-- Receivers and senders of the deliveries on the key, in order. -/
def handed (key : S.Key) (base log : List (Obs M)) : List (Tid × Tid) :=
  (log.drop base.length).filterMap (handed? key)

/-- A push on the key comes after its wait, and no client of the key gives up. -/
def Prompt (key : S.Key) (base : List (Obs M)) (s : State M) (l : Label M) : Prop :=
  (∀ d, next? s l = some (.push key d) →
    (pushers key base s.log).length < (waiters key base s.log).length) ∧
  ∀ t, l = .expire t → (t, key) ∉ s.waiting

/-- Pairing up stops where the second list ends. -/
theorem zip_extends {X Y : Type} {xs xs' : List X} {ys ys' : List Y} (hx : xs <+: xs')
    (hy : ys <+: ys') (h : ys.length ≤ xs.length) : xs.zip ys <+: xs'.zip ys' := by
  obtain ⟨xs₂, rfl⟩ := hx
  obtain ⟨ys₂, rfl⟩ := hy
  induction ys generalizing xs with
  | nil => simp
  | cons y ys ih =>
      cases xs with
      | nil => simp at h
      | cons x xs => simpa using ih (by simpa using h)

theorem zip_snoc {X Y : Type} {xs rest : List X} {ys : List Y} {x : X} (y : Y)
    (h : xs.drop ys.length = x :: rest) : xs.zip (ys ++ [y]) = xs.zip ys ++ [(x, y)] := by
  induction ys generalizing xs with
  | nil =>
      rw [List.length_nil, List.drop_zero] at h
      simp [h]
  | cons z ys ih =>
      cases xs with
      | nil => simp at h
      | cons a xs => simpa using ih h

/-- What a thread gets on no other key is what it is handed on this one. -/
theorem senders_eq {key : S.Key} {r : Tid} {log : List (Obs M)}
    (hkey : ∀ x ∈ deliveredTo r log, x.key = key) :
    senders r log = ((log.filterMap (handed? key)).filter (fun x => x.1 = r)).map Prod.snd := by
  induction log with
  | nil => rfl
  | cons o log ih =>
      have hmem : ∀ x ∈ deliveredTo r log, x ∈ deliveredTo r (o :: log) := by
        intro x hx
        obtain ⟨⟨o', ho', hd⟩, hr⟩ := mem_deliveredTo.mp hx
        exact mem_deliveredTo.mpr ⟨⟨o', List.mem_cons_of_mem _ ho', hd⟩, hr⟩
      have hrest := ih (fun x hx => hkey x (hmem x hx))
      simp only [senders, deliveredTo] at hrest ⊢
      cases hd : delivered? o with
      | none => simp [served?, handed?, hd, hrest]
      | some x =>
          by_cases hr : x.receiver = r
          · have hx := hkey x (mem_deliveredTo.mpr ⟨⟨o, List.mem_cons_self, hd⟩, hr⟩)
            simp [served?, handed?, hd, hr, hx, hrest]
          · by_cases hx : x.key = key <;> simp [served?, handed?, hd, hr, hx, hrest]

section Logs
variable {key : S.Key} {s s' : State M} {l : Label M} {o : Obs M} {base : List (Obs M)}

/-- A step adds its observation behind the beginning of the log. -/
theorem recent_step (hbase : base <+: s.log) (h : Step s l o s') :
    s'.log.drop base.length = s.log.drop base.length ++ [o] := by
  rw [step_log h, List.drop_append_of_le_length hbase.length_le]

theorem filterMap_step {X : Type} (f : Obs M → Option X) (hbase : base <+: s.log)
    (h : Step s l o s') : (s'.log.drop base.length).filterMap f =
      (s.log.drop base.length).filterMap f ++ (f o).toList := by
  rw [recent_step hbase h, List.filterMap_append]
  cases ho : f o <;> simp [ho]

theorem waiters_step (key : S.Key) (hbase : base <+: s.log) (h : Step s l o s') :
    waiters key base s'.log = waiters key base s.log ++ (issuer? key o).toList :=
  filterMap_step _ hbase h

theorem pushers_step (key : S.Key) (hbase : base <+: s.log) (h : Step s l o s') :
    pushers key base s'.log = pushers key base s.log ++ (pusher? key o).toList :=
  filterMap_step _ hbase h

theorem handed_step (key : S.Key) (hbase : base <+: s.log) (h : Step s l o s') :
    handed key base s'.log = handed key base s.log ++ (handed? key o).toList :=
  filterMap_step _ hbase h

theorem prefix_step (hbase : base <+: s.log) (h : Step s l o s') : base <+: s'.log :=
  hbase.trans (step_log h ▸ List.prefix_append _ _)

end Logs

section Queues
variable {key : S.Key} {s : State M}

theorem resume_queue (s : State M) (t : Tid) (a : Awaited S.Data) (key : S.Key) :
    (s.resume t a).queue key = (s.queue key).filter (fun u => u ≠ t) := by
  simp only [State.queue, State.resume_waiting, List.filter_filter, List.filter_map]
  congr 1
  refine List.filter_congr (fun e _ => ?_)
  simp [Bool.and_comm]

theorem queue_nodup (wf : Wf s) : (s.queue key).Nodup :=
  (List.filter_sublist.map Prod.fst).nodup wf.nodup

/-- The client that is served leaves the queue. -/
theorem resume_head (wf : Wf s) {r : Tid} {q : List Tid} (hq : s.queue key = r :: q)
    (a : Awaited S.Data) : (s.resume r a).queue key = q := by
  have hnodup : (s.queue key).Nodup := queue_nodup wf
  rw [hq, List.nodup_cons] at hnodup
  rw [resume_queue, hq, List.filter_cons_of_neg (by simp)]
  exact List.filter_eq_self.mpr (fun u hu => by
    simpa using fun he : u = r => hnodup.1 (he ▸ hu))

/-- A client of another key does not matter. -/
theorem resume_other (wf : Wf s) {r : Tid} {key' : S.Key} (hr : (r, key') ∈ s.waiting)
    (hk : key' ≠ key) (a : Awaited S.Data) : (s.resume r a).queue key = s.queue key := by
  rw [resume_queue]
  refine List.filter_eq_self.mpr (fun u hu => ?_)
  have hne : u ≠ r := by
    rintro rfl
    obtain ⟨kind, k, ht⟩ := wf.waits u key (mem_queue.mp hu)
    obtain ⟨kind', k', ht'⟩ := wf.waits u key' hr
    rw [ht] at ht'
    cases ht'
    exact hk rfl
  simpa using hne

end Queues

/-- The key is served in order so far. -/
structure Matched (key : S.Key) (base : List (Obs M)) (s : State M) : Prop where
  grown : base <+: s.log
  empty : s.lists key = []
  queue : s.queue key = (waiters key base s.log).drop (pushers key base s.log).length
  served : (pushers key base s.log).length ≤ (waiters key base s.log).length
  pairs : handed key base s.log = (waiters key base s.log).zip (pushers key base s.log)

theorem matched_idle {key : S.Key} {s : State M} (hlist : s.lists key = [])
    (hqueue : s.queue key = []) : Matched key s.log s where
  grown := List.prefix_rfl
  empty := hlist
  queue := by simp [waiters, issuers, hqueue]
  served := by simp [pushers]
  pairs := by simp [handed, waiters, issuers]

section Steps
variable {key : S.Key} {s s' : State M} {l : Label M} {o : Obs M} {base : List (Obs M)}

theorem Matched.quiet (inv : Matched key base s) (h : Step s l o s')
    (hlist : s'.lists key = s.lists key) (hqueue : s'.queue key = s.queue key)
    (hwait : issuer? key o = none) (hpush : pusher? key o = none)
    (hhand : handed? key o = none) : Matched key base s' := by
  have hwaiters := waiters_step key inv.grown h
  have hpushers := pushers_step key inv.grown h
  have hhanded := handed_step key inv.grown h
  rw [hwait, Option.toList_none, List.append_nil] at hwaiters
  rw [hpush, Option.toList_none, List.append_nil] at hpushers
  rw [hhand, Option.toList_none, List.append_nil] at hhanded
  constructor
  · exact prefix_step inv.grown h
  · exact hlist.trans inv.empty
  · rw [hqueue, inv.queue, hwaiters, hpushers]
  · rw [hwaiters, hpushers]
    exact inv.served
  · rw [hwaiters, hpushers, hhanded]
    exact inv.pairs

/-- A wait joins the queue. -/
theorem Matched.wait (inv : Matched key base s) {t : Tid}
    (h : Step s l (.awaited t key none) s') (hlist : s'.lists key = s.lists key)
    (hqueue : s'.queue key = s.queue key ++ [t]) : Matched key base s' := by
  have hwaiters := waiters_step key inv.grown h
  have hpushers := pushers_step key inv.grown h
  have hhanded := handed_step key inv.grown h
  simp only [issuer?, if_true, Option.toList_some] at hwaiters
  simp only [pusher?, Option.toList_none, List.append_nil] at hpushers
  simp only [handed?, delivered?, Option.toList_none, List.append_nil] at hhanded
  constructor
  · exact prefix_step inv.grown h
  · exact hlist.trans inv.empty
  · rw [hqueue, inv.queue, hwaiters, hpushers, List.drop_append_of_le_length inv.served]
  · rw [hwaiters, hpushers, List.length_append]
    exact Nat.le_add_right_of_le inv.served
  · rw [hwaiters, hpushers, hhanded, inv.pairs]
    refine (zip_extends (List.prefix_append _ _) List.prefix_rfl inv.served).eq_of_length ?_
    simp [Nat.min_eq_right inv.served, Nat.min_eq_right (Nat.le_add_right_of_le inv.served)]

/-- A push serves the next wait. -/
theorem Matched.push (inv : Matched key base s) {t r : Tid} {q : List Tid} {d : S.Data}
    (h : Step s l (.pushed t key d (r :: q)) s') (hlist : s'.lists key = s.lists key)
    (hold : s.queue key = r :: q) (hqueue : s'.queue key = q) : Matched key base s' := by
  have hwaiters := waiters_step key inv.grown h
  have hpushers := pushers_step key inv.grown h
  have hhanded := handed_step key inv.grown h
  simp only [issuer?, Option.toList_none, List.append_nil] at hwaiters
  simp only [pusher?, if_true, Option.toList_some] at hpushers
  simp only [handed?, delivered?, if_true, Option.toList_some] at hhanded
  have hdrop := inv.queue.symm.trans hold
  have hlt : (pushers key base s.log).length < (waiters key base s.log).length := by
    have hlength := congrArg List.length hdrop
    simp only [List.length_drop, List.length_cons] at hlength
    omega
  have hnext : (waiters key base s.log).drop ((pushers key base s.log).length + 1) = q := by
    rw [← List.drop_drop, hdrop]
    rfl
  constructor
  · exact prefix_step inv.grown h
  · exact hlist.trans inv.empty
  · rw [hqueue, hwaiters, hpushers, List.length_append, List.length_singleton, hnext]
  · rw [hwaiters, hpushers, List.length_append]
    exact hlt
  · rw [hwaiters, hpushers, hhanded, inv.pairs, zip_snoc t hdrop]

/-- What a prompt step does to the key. -/
theorem step_matched (wf : Wf s) (inv : Matched key base s) (hl : Prompt key base s l)
    (h : Step s l o s') : Matched key base s' := by
  have hstep := h
  cases h with
  | enter _ | call _ | acquire _ _ | release _ _ | pushFail _ _ | clearFail _ _ | awaitFail _ _ _ =>
      exact inv.quiet hstep rfl rfl rfl rfl rfl
  | @clear t _ kind key' k ht _ =>
      refine inv.quiet hstep ?_ rfl rfl rfl rfl
      by_cases hk : key = key'
      · subst hk
        simp [inv.empty]
      · simp [Function.update_of_ne hk]
  | @pushKeep t _ kind key' d k ht _ hq =>
      have hk : key' ≠ key := by
        rintro rfl
        have hlt := hl.1 d (next?_run ht)
        have hdrop := inv.queue.symm.trans hq
        rw [List.drop_eq_nil_iff] at hdrop
        omega
      refine inv.quiet hstep ?_ rfl rfl ?_ rfl
      · simp [Function.update_of_ne (Ne.symm hk)]
      · simp [pusher?, hk]
  | @pushHand t r q _ kind key' d k ht _ hq =>
      by_cases hk : key' = key
      · subst hk
        exact inv.push hstep rfl hq (resume_head wf hq (.got d))
      · have hr : (r, key') ∈ s.waiting := mem_queue.mp (by rw [hq]; exact List.mem_cons_self)
        refine inv.quiet hstep rfl (resume_other wf hr hk (.got d)) rfl ?_ ?_
        · simp [pusher?, hk]
        · simp [handed?, delivered?, hk]
  | @awaitBlock t _ kind key' k ht _ _ _ =>
      by_cases hk : key' = key
      · subst hk
        refine inv.wait hstep rfl ?_
        simp [State.queue]
      · refine inv.quiet hstep rfl ?_ ?_ rfl rfl
        · simp [State.queue, hk]
        · simp [issuer?, hk]
  | @awaitTake t _ kind key' i is k ht _ _ hcons =>
      have hk : key' ≠ key := by
        rintro rfl
        rw [inv.empty] at hcons
        cases hcons
      refine inv.quiet hstep ?_ rfl ?_ rfl ?_
      · simp [Function.update_of_ne (Ne.symm hk)]
      · simp [issuer?, hk]
      · simp [handed?, delivered?, hk]
  | @expire t kind key' k ht hb =>
      obtain ⟨⟨u, key''⟩, hwaiting, rfl⟩ := List.mem_map.mp hb
      have hkey : key'' = key' := by
        obtain ⟨kind', k', ht'⟩ := wf.waits _ _ hwaiting
        rw [ht] at ht'
        cases ht'
        rfl
      have hk : key'' ≠ key := by
        rintro rfl
        exact hl.2 u rfl hwaiting
      exact inv.quiet hstep rfl (resume_other wf hwaiting hk .timedOut) rfl rfl rfl

end Steps

end EvoGw.WaitOrder
