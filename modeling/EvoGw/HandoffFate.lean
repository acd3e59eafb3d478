import EvoGw.LockedHandoff
import Mathlib.Data.List.TakeWhile

/-!
# The fate of a pushed element

For a pool that keeps the hand-off discipline and whose store does not refuse,
`receivers h log` lists the threads which ever got the element of `h`. It is the
first entry, if there is one, of the clients blocked at the push followed by the
clients that started to wait before the deletion. The statement is about every
occurrence of a push in the log of every reachable state, so it speaks about
unfinished runs too.
-/
namespace EvoGw.HandoffFate
open ThreadPrograms ThreadPools PoolTraces LockedHandoff

variable {S : Signature} {M : Semantics S}

/-- The thread that gets the element of `h` in this step. -/
def receiver? (h : Tid) : Obs M → Option Tid
  | .pushed t _ _ (r :: _) => if t = h then some r else none
  | .awaited r _ (some i) => if i.pusher = h then some r else none
  | _ => none

/-- The thread that starts to wait on `key` in this step. -/
def issuer? (key : S.Key) : Obs M → Option Tid
  | .awaited t key' _ => if key' = key then some t else none
  | _ => none

def clears (h : Tid) : Obs M → Bool
  | .cleared t _ _ => decide (t = h)
  | _ => false

def receivers (h : Tid) (log : List (Obs M)) : List Tid := log.filterMap (receiver? h)

def issuers (key : S.Key) (log : List (Obs M)) : List Tid := log.filterMap (issuer? key)

/-- The part of a log before the deletion of `h`. -/
def untilClear (h : Tid) (log : List (Obs M)) : List (Obs M) :=
  log.takeWhile (fun o => !clears h o)

theorem receivers_snoc (h : Tid) (log : List (Obs M)) (o : Obs M) :
    receivers h (log ++ [o]) = receivers h log ++ (receiver? h o).toList := by
  rw [receivers, List.filterMap_append]
  cases ho : receiver? h o <;> simp [receivers, ho]

theorem issuers_snoc (key : S.Key) (log : List (Obs M)) (o : Obs M) :
    issuers key (log ++ [o]) = issuers key log ++ (issuer? key o).toList := by
  rw [issuers, List.filterMap_append]
  cases ho : issuer? key o <;> simp [issuers, ho]

theorem untilClear_snoc_closed {h : Tid} {log : List (Obs M)} (o : Obs M)
    (hc : ∃ o ∈ log, clears h o = true) : untilClear h (log ++ [o]) = untilClear h log := by
  obtain ⟨c, hc, hclears⟩ := hc
  have hne : untilClear h log ≠ log := by
    intro heq
    have hall := List.takeWhile_eq_self_iff.mp heq c hc
    simp [hclears] at hall
  have hlen : (untilClear h log).length ≠ log.length := fun heq =>
    hne ((List.takeWhile_prefix _).eq_of_length heq)
  rw [untilClear, List.takeWhile_append]
  exact if_neg hlen

theorem untilClear_snoc_open {h : Tid} {log : List (Obs M)} {o : Obs M}
    (hl : untilClear h log = log) (ho : clears h o = false) :
    untilClear h (log ++ [o]) = log ++ [o] := by
  have hall : ∀ c ∈ log, (!clears h c) = true := List.takeWhile_eq_self_iff.mp hl
  rw [untilClear, List.takeWhile_append_of_pos hall]
  simp [ho]

theorem untilClear_snoc_clear {h : Tid} {log : List (Obs M)} {o : Obs M}
    (hl : untilClear h log = log) (ho : clears h o = true) :
    untilClear h (log ++ [o]) = log := by
  have hall : ∀ c ∈ log, (!clears h c) = true := List.takeWhile_eq_self_iff.mp hl
  rw [untilClear, List.takeWhile_append_of_pos hall]
  simp [ho]

/-- An occurrence in a log extended by one observation. -/
theorem split_snoc {X : Type} {log pre post : List X} {o p : X}
    (h : log ++ [o] = pre ++ p :: post) :
    (post = [] ∧ pre = log ∧ p = o) ∨ ∃ post', post = post' ++ [o] ∧ log = pre ++ p :: post' := by
  rcases List.eq_nil_or_concat post with rfl | ⟨post', q, rfl⟩
  · obtain ⟨h₁, h₂⟩ := List.append_inj' h rfl
    exact .inl ⟨rfl, h₁.symm, (List.cons.inj h₂).1.symm⟩
  · rw [List.concat_eq_append] at h ⊢
    rw [← List.cons_append, ← List.append_assoc] at h
    obtain ⟨h₁, h₂⟩ := List.append_inj' h rfl
    obtain rfl := (List.cons.inj h₂).1
    exact .inr ⟨post', rfl, h₁⟩

/-- What a calm step of a disciplined pool does to the lists. -/
inductive ListDeed (m : S.Mutex) (s s' : State M) : Obs M → Prop
  | quiet {o : Obs M} : s'.lists = s.lists → (∀ h, receiver? h o = none) →
      (∀ key, issuer? key o = none) → (∀ h, clears h o = false) →
      (∀ h key d q, o ≠ .pushed h key d q) → (∀ h k r, events h o ≠ [⟨.clear k, r⟩]) →
      ListDeed m s s' o
  | push {h : Tid} {key : S.Key} {d : S.Data} : phase m h s.log = .held false →
      (s.queue key = [] → s'.lists = Function.update s.lists key [⟨h, d⟩]) →
      (s.queue key ≠ [] → s'.lists = s.lists) → ListDeed m s s' (.pushed h key d (s.queue key))
  | clear {h : Tid} {key : S.Key} : phase m h s.log = .pushed key →
      ListDeed m s s' (.cleared h key (s.lists key))
  | block {t : Tid} {key : S.Key} : s.lists key = [] → s'.lists = s.lists →
      ListDeed m s s' (.awaited t key none)
  | take {t : Tid} {key : S.Key} {i : Item S} {is : List (Item S)} : s.lists key = i :: is →
      s'.lists = Function.update s.lists key is → ListDeed m s s' (.awaited t key (some i))

variable {m : S.Mutex} {permit : M.Kind → Permit S} {s s' : State M} {l : Label M} {o : Obs M}

theorem held_of_push (g : Guarded m permit s) {t : Tid} {kind : M.Kind} {key : S.Key} {d : S.Data}
    {k : Bool → Program S M.Out} (ht : s.threads[t]? = some ⟨kind, .act (.push key d) k⟩) :
    phase m t s.log = .held false ∧ (permit kind).pushes = some (key, d) := by
  have ha := (g.keeps t _ ht).1
  cases hph : phase m t s.log with
  | idle b =>
      rw [hph] at ha
      exact ha.elim
  | held b =>
      rw [hph] at ha
      exact ⟨by rw [ha.1], ha.2⟩
  | pushed key' =>
      rw [hph] at ha
      exact ha.elim

theorem pushed_of_clear (g : Guarded m permit s) {t : Tid} {kind : M.Kind} {key : S.Key}
    {k : Bool → Program S M.Out} (ht : s.threads[t]? = some ⟨kind, .act (.clear key) k⟩) :
    phase m t s.log = .pushed key := by
  have ha := (g.keeps t _ ht).1
  cases hph : phase m t s.log with
  | idle b =>
      rw [hph] at ha
      exact ha.elim
  | held b =>
      rw [hph] at ha
      exact ha.elim
  | pushed key' =>
      rw [hph] at ha
      exact congrArg Phase.pushed (show key = key' from ha).symm

theorem step_deed (g : Guarded m permit s) (h : Step s l o s') (hl : l.Calm) :
    ListDeed m s s' o := by
  cases h with
  | enter _ =>
      exact .quiet rfl (by simp [receiver?]) (by simp [issuer?]) (by simp [clears]) (by simp)
        (by simp [events])
  | call _ | acquire _ _ | release _ _ | expire _ _ =>
      refine .quiet rfl (by simp [receiver?]) (by simp [issuer?]) (by simp [clears]) (by simp) ?_
      intro h k r
      simp only [events]
      split_ifs <;> simp
  | pushFail _ hf =>
      rw [Label.Calm, hf] at hl
      cases hl
  | clearFail _ hf =>
      rw [Label.Calm, hf] at hl
      cases hl
  | awaitFail _ _ hf =>
      rw [Label.Calm, hf] at hl
      cases hl
  | @pushKeep t _ kind key d k ht _ hq =>
      have hh := (held_of_push g ht).1
      rw [← hq]
      exact .push hh (fun _ => by simp [g.lists_nil hh]) (fun hne => absurd hq hne)
  | @pushHand t r q _ kind key d k ht _ hq =>
      have hh := (held_of_push g ht).1
      rw [← hq]
      exact .push hh (fun hnil => by rw [hnil] at hq; cases hq) (fun _ => rfl)
  | @clear t _ kind key k ht _ => exact .clear (pushed_of_clear g ht)
  | awaitBlock _ _ _ hnil => exact .block hnil rfl
  | awaitTake _ _ _ hcons => exact .take hcons rfl

/-- Phases only move forward: nothing undoes a push. -/
theorem isFresh_next {ph : Phase S} (p : Prim S) (h : ph.isFresh = false) :
    (next m ph p).isFresh = false := by
  cases ph with
  | idle b =>
      cases p with
      | acquire m' =>
          simp only [next]
          split_ifs <;> exact h
      | _ => exact h
  | held b =>
      cases p with
      | release m' =>
          simp only [next]
          split_ifs <;> exact h
      | push key d => rfl
      | _ => exact h
  | pushed key =>
      cases p with
      | _ => rfl

theorem isSpent_next {permit : Permit S} {ph : Phase S} {p : Prim S} (ha : Allowed m permit ph p)
    (h : ph.isSpent = true) : (next m ph p).isSpent = true := by
  cases ph with
  | idle b =>
      cases p with
      | acquire m' =>
          simp only [next]
          split_ifs <;> exact h
      | _ => exact h
  | held b =>
      cases p with
      | release m' =>
          simp only [next]
          split_ifs <;> exact h
      | push key d =>
          obtain rfl : b = true := h
          cases ha.1
      | _ => exact h
  | pushed key => cases h

theorem isFresh_of_step (g : Guarded m permit s) (h : Step s l o s') {u : Tid}
    (hu : (phase m u s'.log).isFresh = true) : (phase m u s.log).isFresh = true := by
  rcases step_phase g h u with ⟨-, hp⟩ | ⟨kind, p, k, r, -, -, -, hp⟩
  · rwa [hp] at hu
  · by_contra hn
    have hf := isFresh_next (m := m) p (Bool.not_eq_true _ ▸ hn)
    rw [hp, hf] at hu
    cases hu

theorem isSpent_of_step (g : Guarded m permit s) (h : Step s l o s') {u : Tid}
    (hu : (phase m u s.log).isSpent = true) : (phase m u s'.log).isSpent = true := by
  rcases step_phase g h u with ⟨-, hp⟩ | ⟨kind, p, k, r, -, -, ha, hp⟩
  · rwa [hp]
  · rw [hp]
    exact isSpent_next ha hu

/-- The list still shows what became of the element of `h`. -/
def Opened (m : S.Mutex) (s : State M) (h : Tid) (key : S.Key) (d : S.Data) (queue : List Tid)
    (post : List (Obs M)) : Prop :=
  phase m h s.log = .pushed key ∧ untilClear h post = post ∧
    s.lists key = if queue ++ issuers key post = [] then [⟨h, d⟩] else []

/-- The list has been deleted by `h`. -/
def Closed (m : S.Mutex) (s : State M) (h : Tid) (post : List (Obs M)) : Prop :=
  (phase m h s.log).isSpent = true ∧ ∃ o ∈ post, clears h o = true

structure Fated (m : S.Mutex) (s : State M) : Prop where
  fresh : ∀ h, (phase m h s.log).isFresh = true →
    receivers h s.log = [] ∧ ∀ key d q, Obs.pushed h key d q ∉ s.log
  story : ∀ pre h key d queue post, s.log = pre ++ .pushed h key d queue :: post →
    receivers h s.log = (queue ++ issuers key (untilClear h post)).take 1 ∧
      (Opened m s h key d queue post ∨ Closed m s h post)

theorem fated_initial (w : M.World) : Fated m (initial w : State M) :=
  ⟨fun _ _ => ⟨rfl, by simp [initial]⟩, by simp [initial]⟩

/-- Only a thread between push and deletion has its element taken from a list. -/
theorem pushed_of_take (g : Guarded m permit s) {key : S.Key} {i : Item S} {is : List (Item S)}
    (hl : s.lists key = i :: is) : phase m i.pusher s.log = .pushed key :=
  g.items key i (by rw [hl]; exact List.mem_cons_self)

/-- Nobody gets an element before it is pushed, nor after it is deleted. -/
theorem receiver?_none (g : Guarded m permit s) (hd : ListDeed m s s' o) {h : Tid}
    (hh : ∀ key, phase m h s.log ≠ .pushed key) (ho : ∀ key d q, o ≠ .pushed h key d q) :
    receiver? h o = none := by
  cases hd with
  | quiet _ hr _ _ _ _ => exact hr h
  | @push t key d _ _ _ =>
      have hne : t ≠ h := by
        rintro rfl
        exact ho _ _ _ rfl
      cases s.queue key <;> simp [receiver?, hne]
  | clear _ => rfl
  | block _ _ => rfl
  | @take t key i is hl _ =>
      have hne : i.pusher ≠ h := by
        rintro rfl
        exact hh key (pushed_of_take g hl)
      simp [receiver?, hne]

theorem step_fresh (g : Guarded m permit s) (f : Fated m s) (h : Step s l o s') (hl : l.Calm)
    {u : Tid} (hu : (phase m u s'.log).isFresh = true) :
    receivers u s'.log = [] ∧ ∀ key d q, Obs.pushed u key d q ∉ s'.log := by
  have hold := isFresh_of_step g h hu
  obtain ⟨hr, hp⟩ := f.fresh u hold
  have hd := step_deed g h hl
  have hnot : ∀ key d q, o ≠ .pushed u key d q := by
    rintro key d q rfl
    rw [step_log h, phase_of_single (e := ⟨.push key d, true⟩) (by simp [events])] at hu
    cases hd with
    | quiet _ _ _ _ hne _ => exact hne _ _ _ _ rfl
    | push hh _ _ =>
        rw [hh] at hu
        cases hu
  rw [step_log h, receivers_snoc, hr, receiver?_none g hd (fun key hph => ?_) hnot]
  · refine ⟨rfl, fun key d q hm => ?_⟩
    rcases List.mem_append.mp hm with hm | hm
    · exact hp key d q hm
    · exact hnot key d q (List.mem_singleton.mp hm).symm
  · rw [hph] at hold
    cases hold

/-- The observation is the push itself. -/
theorem story_push (g : Guarded m permit s) (f : Fated m s) {h : Tid} {key : S.Key} {d : S.Data}
    (hs : s'.log = s.log ++ [.pushed h key d (s.queue key)]) (hh : phase m h s.log = .held false)
    (hkeep : s.queue key = [] → s'.lists = Function.update s.lists key [⟨h, d⟩])
    (hhand : s.queue key ≠ [] → s'.lists = s.lists) :
    receivers h s'.log = (s.queue key ++ issuers key (untilClear h ([] : List (Obs M)))).take 1 ∧
      Opened m s' h key d (s.queue key) [] := by
  have hr := (f.fresh h (by rw [hh]; rfl)).1
  have hp : phase m h s'.log = .pushed key := by
    rw [hs, phase_of_single (e := ⟨.push key d, true⟩) (by simp [events]), hh]
    rfl
  have hlist := g.lists_nil hh key
  rw [Opened, hp, hs, receivers_snoc, hr]
  cases hq : s.queue key with
  | nil => simp [receiver?, issuers, untilClear, hkeep hq]
  | cons r q =>
      have hne : s.queue key ≠ [] := by simp [hq]
      simp [receiver?, issuers, untilClear, hhand hne, hlist]

/-- The push is behind and its list not deleted yet. -/
theorem story_opened (g : Guarded m permit s) (hstep : Step s l o s') (hd : ListDeed m s s' o)
    {h : Tid} {key : S.Key} {d : S.Data} {queue : List Tid} {post : List (Obs M)}
    (hr : receivers h s.log = (queue ++ issuers key post).take 1)
    (ho : Opened m s h key d queue post) :
    receivers h s'.log = (queue ++ issuers key (untilClear h (post ++ [o]))).take 1 ∧
      (Opened m s' h key d queue (post ++ [o]) ∨ Closed m s' h (post ++ [o])) := by
  obtain ⟨hp, hpost, hlist⟩ := ho
  have hlog := step_log hstep
  -- unless the step deletes for `h`, its phase stays
  have stay : (∀ k r, events h o ≠ [⟨.clear k, r⟩]) → phase m h s'.log = .pushed key := by
    intro hc
    rcases g.pushed_moves hstep hp with ⟨-, hp'⟩ | ⟨_, _, r, _, he, _⟩
    · exact hp'
    · exact absurd he (hc key r)
  rw [hlog, receivers_snoc, hr]
  cases hd with
  | quiet hl hrec hiss hclr _ hev =>
      rw [untilClear_snoc_open hpost (hclr h), issuers_snoc, hrec h, hiss key]
      refine ⟨by simp, .inl ⟨stay (hev h), untilClear_snoc_open hpost (hclr h), ?_⟩⟩
      rw [hl, hlist, issuers_snoc, hiss key]
      simp
  | @push t key' d' ht _ _ =>
      have he := g.pushed_unique hp (u := t) (by rw [ht]; rfl)
      rw [he, hp] at ht
      cases ht
  | @clear t key' ht =>
      have he := g.pushed_unique hp (u := t) (by rw [ht]; rfl)
      subst he
      have hc : clears t (Obs.cleared t key' (s.lists key') : Obs M) = true := by simp [clears]
      rw [untilClear_snoc_clear hpost hc]
      refine ⟨by simp [receiver?], .inr ⟨?_, _, List.mem_append_right _ List.mem_cons_self, hc⟩⟩
      rw [hlog, phase_of_single (e := ⟨.clear key', true⟩) (by simp [events]), ht]
      rfl
  | @block t key' hnil hl =>
      have hc : clears h (Obs.awaited t key' none : Obs M) = false := rfl
      have hlist' : s'.lists key = if queue ++ issuers key post = [] then [⟨h, d⟩] else [] := by
        rw [hl, hlist]
      rw [untilClear_snoc_open hpost hc, issuers_snoc]
      by_cases hk : key' = key
      · subst hk
        -- the list is empty, so the element already has its receiver
        have hne : queue ++ issuers key' post ≠ [] := by
          intro he
          rw [hnil, if_pos he] at hlist
          cases hlist
        refine ⟨?_, .inl ⟨stay (by simp [events]), untilClear_snoc_open hpost hc, ?_⟩⟩
        · obtain ⟨a, as, has⟩ := List.exists_cons_of_ne_nil hne
          rw [← List.append_assoc, has]
          simp [receiver?]
        · rw [hlist', if_neg hne, issuers_snoc, ← List.append_assoc,
            if_neg (fun he => hne (List.append_eq_nil_iff.mp he).1)]
      · have hi : issuer? key (Obs.awaited t key' none : Obs M) = none := by simp [issuer?, hk]
        refine ⟨by simp [receiver?, hi],
          .inl ⟨stay (by simp [events]), untilClear_snoc_open hpost hc, ?_⟩⟩
        rw [hlist', issuers_snoc, hi]
        simp
  | @take t key' i is hcons hl =>
      have hc : clears h (Obs.awaited t key' (some i) : Obs M) = false := rfl
      have hi := pushed_of_take g hcons
      have hih := g.pushed_unique hp (u := i.pusher) (by rw [hi]; rfl)
      rw [hih, hp] at hi
      obtain rfl := Phase.pushed.inj hi
      -- the list was not empty, so it held just the element of `h`
      have hnone : queue ++ issuers key post = [] := by
        by_contra he
        rw [hcons, if_neg he] at hlist
        cases hlist
      rw [hcons, if_pos hnone] at hlist
      obtain ⟨-, rfl⟩ := List.cons.inj hlist
      obtain ⟨rfl, hnil⟩ := List.append_eq_nil_iff.mp hnone
      rw [untilClear_snoc_open hpost hc, issuers_snoc, hnil]
      refine ⟨by simp [receiver?, issuer?, hih], .inl ⟨stay ?_, untilClear_snoc_open hpost hc, ?_⟩⟩
      · intro k r he
        simp only [events] at he
        split_ifs at he
        simp at he
      · rw [hl, issuers_snoc, hnil]
        simp [issuer?]

/-- The list has been deleted: nothing can happen to the element any more. -/
theorem story_closed (g : Guarded m permit s) (hstep : Step s l o s') (hd : ListDeed m s s' o)
    {post : List (Obs M)} {h : Tid} {key : S.Key} {queue : List Tid}
    (hr : receivers h s.log = (queue ++ issuers key (untilClear h post)).take 1)
    (hc : Closed m s h post) :
    receivers h s'.log = (queue ++ issuers key (untilClear h (post ++ [o]))).take 1 ∧
      Closed m s' h (post ++ [o]) := by
  obtain ⟨hspent, c, hcm, hcc⟩ := hc
  have hnone : receiver? h o = none := by
    refine receiver?_none g hd (fun key' hp => ?_) ?_
    · rw [hp] at hspent
      cases hspent
    · rintro key' d' q rfl
      cases hd with
      | quiet _ _ _ _ hne _ => exact hne _ _ _ _ rfl
      | push hh _ _ =>
          rw [hh] at hspent
          cases hspent
  rw [step_log hstep, receivers_snoc, hr, hnone, untilClear_snoc_closed o ⟨c, hcm, hcc⟩]
  exact ⟨by simp, isSpent_of_step g hstep hspent, c, List.mem_append_left _ hcm, hcc⟩

theorem step_fated (g : Guarded m permit s) (f : Fated m s) (h : Step s l o s') (hl : l.Calm) :
    Fated m s' where
  fresh := fun _ hu => step_fresh g f h hl hu
  story := by
    intro pre t key d queue post hsplit
    have hd := step_deed g h hl
    have hlog := step_log h
    rw [hlog] at hsplit
    rcases split_snoc hsplit with ⟨rfl, -, rfl⟩ | ⟨post', rfl, hold⟩
    · cases hd with
      | quiet _ _ _ _ hne _ => exact absurd rfl (hne _ _ _ _)
      | push hh hkeep hhand =>
          obtain ⟨hr, ho⟩ := story_push g f hlog hh hkeep hhand
          exact ⟨hr, .inl ho⟩
    · obtain ⟨hr, ho | hc⟩ := f.story pre t key d queue post' hold
      · rw [ho.2.1] at hr
        exact story_opened g h hd hr ho
      · obtain ⟨hr', hc'⟩ := story_closed g h hd hr hc
        exact ⟨hr', .inr hc'⟩

theorem exec_fated (henter : ∀ w t kind w' p, M.enter w t kind = some (w', p) →
      Keeps m (permit kind) IsIdle (.idle false) p)
    {w : M.World} {ls : List (Label M)} (h : exec (initial w) ls = some s)
    (hls : ∀ l ∈ ls, l.Calm) : Fated m s := by
  refine exec_induction (P := fun ls s => (∀ l ∈ ls, l.Calm) → Fated m s)
    (fun _ => fated_initial w) ?_ h hls
  intro ls s l o s' hs ih hstep hls
  have hcalm := List.forall_mem_append.mp hls
  exact step_fated (exec_guarded henter hs hcalm.1) (ih hcalm.1) hstep
    (hcalm.2 l List.mem_cons_self)

end EvoGw.HandoffFate
