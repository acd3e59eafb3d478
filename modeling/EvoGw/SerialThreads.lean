import EvoGw.PoolTraces
import EvoGw.SoloRuns

/-!
# Threads of a pool that run one at a time

When a thread of a pool runs from its entry to its end and nobody else moves,
what it does to the world is what its program does in a run alone. A serial run
of the pool is a sequence of such threads. So a sequential machine, whose steps
are whole programs, says what serial runs of the pool can do.

The threads considered here never wait on a list.
-/
namespace EvoGw.SerialThreads
open ThreadPrograms ThreadPools PoolTraces SoloRuns

variable {S : Signature} {M : Semantics S} [Inhabited M.Choice]

/-- The surroundings of a thread that runs alone: the world, and how its next
calls will turn out. -/
structure Alone (M : Semantics S) where
  world : M.World
  choices : List M.Choice

def Alone.choice (s : Alone M) : M.Choice := s.choices.headD default

/-- One primitive of a thread that runs alone. Nobody ever serves a wait. -/
def alone (t : Tid) (s : Alone M) : (p : Prim S) → Alone M × p.Resp
  | .call c =>
      (⟨(M.perform s.world t c s.choice).1, s.choices.tail⟩, (M.perform s.world t c s.choice).2)
  | .acquire _ => (s, ())
  | .release _ => (s, ())
  | .push _ _ => (⟨s.world, s.choices.tail⟩, !M.fails s.choice)
  | .clear _ => (⟨s.world, s.choices.tail⟩, !M.fails s.choice)
  | .await _ => (⟨s.world, s.choices.tail⟩, .timedOut)

/-- Choices are used up one after another. -/
theorem drive_choices {A : Type} (t : Tid) (s : Alone M) (p : Program S A) :
    (drive (alone t) s p).state.choices <:+ s.choices := by
  induction p generalizing s with
  | done a => exact List.suffix_rfl
  | raise e => exact List.suffix_rfl
  | act p k ih =>
      have hfirst : (alone t s p).1.choices <:+ s.choices := by
        cases p with
        | acquire m => exact List.suffix_rfl
        | release m => exact List.suffix_rfl
        | _ => exact List.tail_suffix _
      exact (ih _ _).trans hfirst

def NoWait : Prim S → Prop
  | .await _ => False
  | _ => True

/-- A step of a thread in the pool is a step of the thread alone. -/
theorem step_alone {s s' : State M} {t : Tid} {choice : M.Choice} {o : Obs M} (wf : Wf s)
    (h : Step s (.run t choice) o s') {kind : M.Kind} {p : Prim S}
    {k : p.Resp → Program S M.Out} (ht : s.threads[t]? = some ⟨kind, .act p k⟩) (hp : NoWait p) :
    ∃ r, s'.threads[t]? = some ⟨kind, k r⟩ ∧ ∀ choices, ∃ choices',
      (choices' = choices ∨ choices' = choice :: choices) ∧
      alone t ⟨s.world, choices'⟩ p = (⟨s'.world, choices⟩, r) := by
  cases h with
  | call ht' =>
      cases ht.symm.trans ht'
      exact ⟨_, State.setProg_self ht' _, fun choices => ⟨choice :: choices, .inr rfl, rfl⟩⟩
  | acquire ht' _ =>
      cases ht.symm.trans ht'
      exact ⟨(), State.setProg_self ht' _, fun choices => ⟨choices, .inl rfl, rfl⟩⟩
  | release ht' _ =>
      cases ht.symm.trans ht'
      exact ⟨(), State.setProg_self ht' _, fun choices => ⟨choices, .inl rfl, rfl⟩⟩
  | pushFail ht' hf =>
      cases ht.symm.trans ht'
      exact ⟨false, State.setProg_self ht' _, fun choices => ⟨choice :: choices, .inr rfl,
        by simp [alone, Alone.choice, hf]⟩⟩
  | pushKeep ht' hf _ =>
      cases ht.symm.trans ht'
      exact ⟨true, State.setProg_self ht' _, fun choices => ⟨choice :: choices, .inr rfl,
        by simp [alone, Alone.choice, hf]⟩⟩
  | @pushHand _ r q _ _ key d k' ht' hf hq =>
      cases ht.symm.trans ht'
      have hqueue : r ∈ s.queue key := by
        rw [hq]
        exact List.mem_cons_self
      have hne : r ≠ t := wf.ne_running (mem_queue.mp hqueue) ht' (by simp)
      have hstill : (s.resume r (.got d)).threads[t]? = some ⟨kind, .act (.push key d) k'⟩ := by
        rw [State.resume_ne s (Ne.symm hne)]
        exact ht'
      exact ⟨true, State.setProg_self hstill _, fun choices => ⟨choice :: choices, .inr rfl,
        by simp [alone, Alone.choice, hf]⟩⟩
  | clearFail ht' hf =>
      cases ht.symm.trans ht'
      exact ⟨false, State.setProg_self ht' _, fun choices => ⟨choice :: choices, .inr rfl,
        by simp [alone, Alone.choice, hf]⟩⟩
  | clear ht' hf =>
      cases ht.symm.trans ht'
      exact ⟨true, State.setProg_self ht' _, fun choices => ⟨choice :: choices, .inr rfl,
        by simp [alone, Alone.choice, hf]⟩⟩
  | awaitFail ht' _ _ =>
      cases ht.symm.trans ht'
      exact hp.elim
  | awaitBlock ht' _ _ _ =>
      cases ht.symm.trans ht'
      exact hp.elim
  | awaitTake ht' _ _ _ =>
      cases ht.symm.trans ht'
      exact hp.elim

/-- A thread that runs alone to its end changes the world as its program does. -/
theorem exec_alone {s s' : State M} {t : Tid} (wf : Wf s) {ls : List (Label M)}
    (hls : ∀ l ∈ ls, ∃ choice, l = .run t choice) (h : exec s ls = some s') {kind : M.Kind}
    {p : Program S M.Out} (ht : s.threads[t]? = some ⟨kind, p⟩) (hp : Uses NoWait p)
    (hend : Ended s' t) :
    ∃ choices, s'.world = (drive (alone t) ⟨s.world, choices⟩ p).state.world ∧
      ∀ c ∈ choices, .run t c ∈ ls := by
  induction ls generalizing s p with
  | nil =>
      cases h
      refine ⟨[], ?_, by simp⟩
      cases p with
      | done a => rfl
      | raise e => rfl
      | act q k => exact (hend.not_running ht).elim
  | cons l ls ih =>
      obtain ⟨choice, rfl⟩ := hls _ List.mem_cons_self
      obtain ⟨s₁, hstep, hrest⟩ := Option.bind_eq_some_iff.mp h
      obtain ⟨o, ho⟩ := step_sound hstep
      cases p with
      | done a => simp [step, ht] at hstep
      | raise e => simp [step, ht] at hstep
      | act q k =>
          obtain ⟨r, ht₁, hworld⟩ := step_alone wf ho ht hp.1
          obtain ⟨choices, heq, hmem⟩ := ih (step_wf wf ho)
            (fun l hl => hls l (List.mem_cons_of_mem _ hl)) hrest ht₁ (hp.2 r)
          obtain ⟨choices', hchoices, halone⟩ := hworld choices
          refine ⟨choices', ?_, ?_⟩
          · rw [heq]
            simp only [drive, halone]
          · intro c hc
            rcases hchoices with rfl | rfl
            · exact List.mem_cons_of_mem _ (hmem c hc)
            · rcases List.mem_cons.mp hc with rfl | hc
              · exact List.mem_cons_self
              · exact List.mem_cons_of_mem _ (hmem c hc)

/-- Threads of these kinds enter one after another, and each runs to its end
before the next one enters. `ok` restricts the choices. -/
inductive Serial (ok : M.Choice → Prop) : State M → List M.Kind → State M → Prop
  | nil (s : State M) : Serial ok s [] s
  | cons {s s₁ s₂ s₃ : State M} {kind : M.Kind} {kinds : List M.Kind} {ls : List (Label M)} :
      step s (.enter kind) = some s₁ →
      (∀ l ∈ ls, ∃ choice, ok choice ∧ l = .run s.threads.length choice) →
      exec s₁ ls = some s₂ → Ended s₂ s.threads.length → Serial ok s₂ kinds s₃ →
      Serial ok s (kind :: kinds) s₃

/-- A sequential machine whose step from a world is a run of the entering program
alone reaches the worlds which serial runs of the pool reach. -/
theorem serial_worlds {E : Type} {kind : E → M.Kind} {ok : M.Choice → Prop}
    {next : M.World → E → List M.Choice → M.World}
    (hnext : ∀ e w t w' p, M.enter w t (kind e) = some (w', p) → Uses NoWait p ∧
      ∀ choices, (drive (alone t) ⟨w', choices⟩ p).state.world = next w e choices)
    {s s' : State M} {es : List E} (wf : Wf s) (h : Serial ok s (es.map kind) s') :
    ∃ turns : List (E × List M.Choice), turns.map Prod.fst = es ∧
      (∀ turn ∈ turns, ∀ c ∈ turn.2, ok c) ∧
      s'.world = turns.foldl (fun w turn => next w turn.1 turn.2) s.world := by
  induction es generalizing s with
  | nil =>
      cases h
      exact ⟨[], rfl, by simp, rfl⟩
  | cons e es ih =>
      cases h with
      | @cons _ s₁ s₂ _ _ _ ls henter hls hrun hend hrest =>
          obtain ⟨o, ho⟩ := step_sound henter
          have wf₁ := step_wf wf ho
          obtain ⟨turns, hes, hok, hworld⟩ := ih (exec_wf_from wf₁ hrun) hrest
          cases ho with
          | @enter _ w p hw =>
              obtain ⟨hwait, hdrive⟩ := hnext _ _ _ _ _ hw
              have hlabels : ∀ l ∈ ls, ∃ choice, l = .run s.threads.length choice := by
                intro l hl
                obtain ⟨choice, -, heq⟩ := hls l hl
                exact ⟨choice, heq⟩
              have hthread : (s.threads ++ [(⟨kind e, p⟩ : Thread M)])[s.threads.length]? =
                  some ⟨kind e, p⟩ := by simp
              obtain ⟨choices, heq, hmem⟩ := exec_alone wf₁ hlabels hrun hthread hwait hend
              have hworld₂ : s₂.world = next s.world e choices := heq.trans (hdrive choices)
              refine ⟨(e, choices) :: turns, by rw [List.map_cons, hes], ?_, ?_⟩
              · intro turn hturn
                rcases List.mem_cons.mp hturn with rfl | hturn
                · intro c hc
                  obtain ⟨choice, hchoice, hlabel⟩ := hls _ (hmem c hc)
                  cases hlabel
                  exact hchoice
                · exact hok turn hturn
              · rw [hworld, List.foldl_cons, hworld₂]

end EvoGw.SerialThreads
