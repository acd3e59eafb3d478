import EvoGw.Deliveries

/-!
# The order of deliveries

A list whose clients are served from the end at which elements are pushed is a
stack, so nothing is delivered in order in general. In a pool that keeps the
discipline of `LockedHandoff` there is at most one element in all lists together,
that of the thread inside the mutex. Deliveries then follow the order of the
pushes, over all keys, and no element is delivered twice.
-/
namespace EvoGw.DeliveryOrder
open ThreadPrograms ThreadPools PoolTraces LockedHandoff HandoffFate Deliveries

variable {S : Signature} {M : Semantics S}

/-- An element with the thread that has pushed it and the list it is for. -/
structure Parcel (S : Signature) where
  sender : Tid
  key : S.Key
  data : S.Data

def pushed? : Obs M → Option (Parcel S)
  | .pushed t key d _ => some ⟨t, key, d⟩
  | _ => none

def pushes (log : List (Obs M)) : List (Parcel S) := log.filterMap pushed?

def parcel? (o : Obs M) : Option (Parcel S) :=
  (delivered? o).map (fun x => ⟨x.sender, x.key, x.data⟩)

def deliveries (log : List (Obs M)) : List (Parcel S) := log.filterMap parcel?

/-- The deliveries so far, followed by any element that still waits in a list, are
in the order of the pushes. -/
structure Ordered (s : State M) : Prop where
  sent : ((pushes s.log).map Parcel.sender).Nodup
  sublist : (deliveries s.log).Sublist (pushes s.log)
  pending : ∀ key i, i ∈ s.lists key →
    (deliveries s.log ++ [(⟨i.pusher, key, i.data⟩ : Parcel S)]).Sublist (pushes s.log)
  short : ∀ key, (s.lists key).length ≤ 1

theorem ordered_initial (w : M.World) : Ordered (initial w : State M) :=
  ⟨.nil, .slnil, by simp [initial], by simp [initial]⟩

section Steps
variable {m : S.Mutex} {permit : M.Kind → Permit S} {s s' : State M} {l : Label M} {o : Obs M}

theorem pushes_step (h : Step s l o s') : pushes s'.log = pushes s.log ++ (pushed? o).toList := by
  rw [step_log h, pushes, List.filterMap_append]
  cases ho : pushed? o <;> simp [pushes, ho]

theorem deliveries_step (h : Step s l o s') :
    deliveries s'.log = deliveries s.log ++ (parcel? o).toList := by
  rw [step_log h, deliveries, List.filterMap_append]
  cases ho : parcel? o <;> simp [deliveries, ho]

/-- A step that neither pushes nor delivers, and adds to no list. -/
theorem Ordered.quiet (c : Ordered s) (h : Step s l o s') (hpush : pushed? o = none)
    (hdeliver : parcel? o = none) (hlists : ∀ key, (s'.lists key).Sublist (s.lists key)) :
    Ordered s' := by
  have hp := pushes_step h
  have hd := deliveries_step h
  rw [hpush, Option.toList_none, List.append_nil] at hp
  rw [hdeliver, Option.toList_none, List.append_nil] at hd
  constructor
  · rw [hp]
    exact c.sent
  · rw [hp, hd]
    exact c.sublist
  · intro key i hi
    rw [hp, hd]
    exact c.pending key i ((hlists key).subset hi)
  · intro key
    exact (hlists key).length_le.trans (c.short key)

/-- The thread inside the mutex pushes for the first time. -/
theorem sent_step (f : Fated m s) (c : Ordered s) {t : Tid} {key : S.Key} {d : S.Data}
    {queue : List Tid} (hh : phase m t s.log = .held false)
    (h : Step s l (.pushed t key d queue) s') : ((pushes s'.log).map Parcel.sender).Nodup := by
  rw [pushes_step h, pushed?, Option.toList_some, List.map_append, List.map_singleton]
  refine List.nodup_append.mpr ⟨c.sent, by simp, ?_⟩
  intro u hu v hv heq
  rw [heq, List.mem_singleton.mp hv] at hu
  obtain ⟨x, hx, hsender⟩ := List.mem_map.mp hu
  obtain ⟨o, ho, hpushed⟩ := List.mem_filterMap.mp hx
  have hfresh := (f.fresh t (by rw [hh]; rfl)).2
  cases o with
  | pushed u key' d' q =>
      cases hpushed
      obtain rfl : u = t := hsender
      exact hfresh key' d' q ho
  | _ => cases hpushed

/-- Nobody waits, and the element is the only one in any list. -/
theorem Ordered.keep (f : Fated m s) (c : Ordered s) {t : Tid} {key : S.Key} {d : S.Data}
    (hh : phase m t s.log = .held false) (h : Step s l (.pushed t key d []) s')
    (hlists : ∀ key', s'.lists key' = if key' = key then [⟨t, d⟩] else []) : Ordered s' := by
  have hp : pushes s'.log = pushes s.log ++ [⟨t, key, d⟩] := pushes_step h
  have hd : deliveries s'.log = deliveries s.log ++ [] := deliveries_step h
  rw [List.append_nil] at hd
  constructor
  · exact sent_step f c hh h
  · rw [hp, hd]
    exact c.sublist.trans (List.sublist_append_left _ _)
  · intro key' i hi
    rw [hlists] at hi
    split_ifs at hi with hkey
    · rw [List.mem_singleton.mp hi, hkey, hp, hd]
      exact c.sublist.append (.refl _)
    · cases hi
  · intro key'
    rw [hlists]
    split_ifs <;> simp

/-- The client that waits longest is served at once, and the lists stay empty. -/
theorem Ordered.hand (f : Fated m s) (c : Ordered s) {t r : Tid} {q : List Tid} {key : S.Key}
    {d : S.Data} (hh : phase m t s.log = .held false)
    (h : Step s l (.pushed t key d (r :: q)) s') (hlists : ∀ key', s'.lists key' = []) :
    Ordered s' := by
  have hp : pushes s'.log = pushes s.log ++ [⟨t, key, d⟩] := pushes_step h
  have hd : deliveries s'.log = deliveries s.log ++ [⟨t, key, d⟩] := deliveries_step h
  constructor
  · exact sent_step f c hh h
  · rw [hp, hd]
    exact c.sublist.append (.refl _)
  · intro key' i hi
    rw [hlists] at hi
    cases hi
  · intro key'
    rw [hlists]
    exact Nat.zero_le 1

/-- The only element is taken. -/
theorem Ordered.take (c : Ordered s) {t : Tid} {key : S.Key} {i : Item S}
    (hi : i ∈ s.lists key) (h : Step s l (.awaited t key (some i)) s')
    (hlists : ∀ key', s'.lists key' = []) : Ordered s' := by
  have hp : pushes s'.log = pushes s.log ++ [] := pushes_step h
  have hd : deliveries s'.log = deliveries s.log ++ [⟨i.pusher, key, i.data⟩] := deliveries_step h
  rw [List.append_nil] at hp
  constructor
  · rw [hp]
    exact c.sent
  · rw [hp, hd]
    exact c.pending key i hi
  · intro key' j hj
    rw [hlists] at hj
    cases hj
  · intro key'
    rw [hlists]
    exact Nat.zero_le 1

/-- All lists but one are empty while an element waits. -/
theorem lists_other (g : Guarded m permit s) {key key' : S.Key} {i : Item S}
    (hi : i ∈ s.lists key) (hne : key' ≠ key) : s.lists key' = [] := by
  rw [List.eq_nil_iff_forall_not_mem]
  intro j hj
  have hphase := g.items key i hi
  have hphase' := g.items key' j hj
  have hsame := g.pushed_unique hphase (u := j.pusher) (by rw [hphase']; rfl)
  rw [hsame, hphase] at hphase'
  cases hphase'
  exact hne rfl

theorem step_ordered (g : Guarded m permit s) (f : Fated m s) (c : Ordered s)
    (h : Step s l o s') (hl : l.Calm) : Ordered s' := by
  have hstep := h
  cases h with
  | enter _ | call _ | acquire _ _ | release _ _ | awaitBlock _ _ _ _ | expire _ _ =>
      exact c.quiet hstep rfl rfl (fun _ => .refl _)
  | pushFail _ hf | clearFail _ hf | awaitFail _ _ hf =>
      rw [Label.Calm, hf] at hl
      cases hl
  | @clear t _ kind key k ht _ =>
      refine c.quiet hstep rfl rfl (fun key' => ?_)
      by_cases hkey : key' = key <;> simp [hkey]
  | @pushKeep t _ kind key d k ht _ hq =>
      have hh := (held_of_push g ht).1
      refine .keep f c hh hstep (fun key' => ?_)
      by_cases hkey : key' = key <;> simp [hkey, g.lists_nil hh]
  | @pushHand t r q _ kind key d k ht _ hq =>
      have hh := (held_of_push g ht).1
      exact .hand f c hh hstep (fun key' => g.lists_nil hh key')
  | @awaitTake t _ kind key i is k ht _ _ hcons =>
      have hi : i ∈ s.lists key := by simp [hcons]
      have hrest : is = [] := by
        have hshort := c.short key
        rw [hcons, List.length_cons] at hshort
        exact List.length_eq_zero_iff.mp (by omega)
      refine c.take hi hstep (fun key' => ?_)
      by_cases hkey : key' = key
      · simp [hkey, hrest]
      · simp [hkey, lists_other g hi hkey]

end Steps

theorem exec_ordered {m : S.Mutex} {permit : M.Kind → Permit S}
    (henter : ∀ w t kind w' p, M.enter w t kind = some (w', p) →
      Keeps m (permit kind) IsIdle (.idle false) p)
    {w : M.World} {s : State M} {ls : List (Label M)} (h : exec (initial w) ls = some s)
    (hls : ∀ l ∈ ls, l.Calm) : Ordered s := by
  refine exec_induction (P := fun ls s => (∀ l ∈ ls, l.Calm) → Ordered s)
    (fun _ => ordered_initial w) ?_ h hls
  intro ls s l o s' hs ih hstep hls
  have hcalm := List.forall_mem_append.mp hls
  exact step_ordered (exec_guarded henter hs hcalm.1) (exec_fated henter hs hcalm.1) (ih hcalm.1)
    hstep (hcalm.2 l List.mem_cons_self)

end EvoGw.DeliveryOrder
