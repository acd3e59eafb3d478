import EvoGw.ListHistories

/-!
# Who is served with what

A step of a pool delivers an element in one of two ways: a push on a key with
blocked clients serves the one that is blocked longest, and a wait on a key with
elements takes the first. The log tells who has sent an element and who has got
it. What a thread was served with is what its waits were answered with, in the
same order.
-/
namespace EvoGw.Deliveries
open ThreadPrograms ThreadPools PoolTraces HandoffFate ListHistories

variable {S : Signature} {M : Semantics S} {s : State M} {o : Obs M}

/-- `receiver` gets the element `data` which `sender` has pushed onto `key`. -/
structure Delivery (S : Signature) where
  sender : Tid
  receiver : Tid
  key : S.Key
  data : S.Data

def delivered? : Obs M → Option (Delivery S)
  | .pushed t key d (r :: _) => some ⟨t, r, key, d⟩
  | .awaited r key (some i) => some ⟨i.pusher, r, key, i.data⟩
  | _ => none

theorem receiver?_iff {t r : Tid} :
    receiver? t o = some r ↔ ∃ x, delivered? o = some x ∧ x.sender = t ∧ x.receiver = r := by
  cases o with
  | pushed u key d queue =>
      cases queue with
      | nil => simp [receiver?, delivered?]
      | cons v queue => simp [receiver?, delivered?]
  | awaited u key got =>
      cases got with
      | none => simp [receiver?, delivered?]
      | some i => simp [receiver?, delivered?]
  | _ => simp [receiver?, delivered?]

theorem delivered_of_delivers {t r : Tid} {key : S.Key} {d : S.Data} (h : Delivers t r key d o) :
    delivered? o = some ⟨t, r, key, d⟩ := by
  cases h with
  | handed queue _ => rfl
  | taken i hi hd =>
      subst hi hd
      rfl

/-- What is delivered was pushed by its sender, and answers a wait of its receiver. -/
theorem delivers_of_delivered (c : Recorded s) (ho : o ∈ s.log) {x : Delivery S}
    (hx : delivered? o = some x) : Delivers x.sender x.receiver x.key x.data o ∧
      ∃ q, Obs.pushed x.sender x.key x.data q ∈ s.log := by
  obtain ⟨t, r, key, d⟩ := x
  obtain ⟨key', d', q, hd, hq⟩ := c.delivered o ho t r (receiver?_iff.mpr ⟨_, hx, rfl, rfl⟩)
  rw [delivered_of_delivers hd] at hx
  cases hx
  exact ⟨hd, q, hq⟩

/-- What one observation serves a thread with. -/
def served? (r : Tid) (o : Obs M) : Option (Delivery S) :=
  match delivered? o with
  | some x => if x.receiver = r then some x else none
  | none => none

/-- The deliveries to a thread, in order. -/
def deliveredTo (r : Tid) (log : List (Obs M)) : List (Delivery S) := log.filterMap (served? r)

/-- The elements which a thread has been served with. -/
def inbox (r : Tid) (log : List (Obs M)) : List S.Data := (deliveredTo r log).map Delivery.data

/-- The threads which have pushed them. -/
def senders (r : Tid) (log : List (Obs M)) : List Tid := (deliveredTo r log).map Delivery.sender

theorem served?_iff {r : Tid} {x : Delivery S} :
    served? r o = some x ↔ delivered? o = some x ∧ x.receiver = r := by
  unfold served?
  cases delivered? o with
  | none => simp
  | some y =>
      simp only [Option.ite_none_right_eq_some, Option.some.injEq]
      exact ⟨fun ⟨hr, hx⟩ => ⟨hx, hx ▸ hr⟩, fun ⟨hx, hr⟩ => ⟨hx ▸ hr, hx⟩⟩

theorem mem_deliveredTo {r : Tid} {log : List (Obs M)} {x : Delivery S} :
    x ∈ deliveredTo r log ↔ (∃ o ∈ log, delivered? o = some x) ∧ x.receiver = r := by
  simp only [deliveredTo, List.mem_filterMap, served?_iff]
  exact ⟨fun ⟨o, ho, hx, hr⟩ => ⟨⟨o, ho, hx⟩, hr⟩, fun ⟨⟨o, ho, hx⟩, hr⟩ => ⟨o, ho, hx, hr⟩⟩

/-- A thread has got the element of `t` exactly if `t` is among its senders. -/
theorem mem_senders {r t : Tid} {log : List (Obs M)} :
    t ∈ senders r log ↔ r ∈ receivers t log := by
  simp only [senders, List.mem_map, mem_deliveredTo, receivers, List.mem_filterMap,
    receiver?_iff]
  constructor
  · rintro ⟨x, ⟨⟨o, ho, hx⟩, hr⟩, ht⟩
    exact ⟨o, ho, x, hx, ht, hr⟩
  · rintro ⟨o, ho, x, hx, ht, hr⟩
    exact ⟨x, ⟨⟨o, ho, hx⟩, hr⟩, ht⟩

def got? : Event S → Option S.Data
  | ⟨.await _, .got d⟩ => some d
  | _ => none

theorem got?_eq_some {e : Event S} {d : S.Data} (h : got? e = some d) :
    ∃ key, e = ⟨.await key, .got d⟩ := by
  unfold got? at h
  split at h
  · cases h
    exact ⟨_, rfl⟩
  · cases h

theorem got?_events (c : Recorded s) (r : Tid) (ho : o ∈ s.log) :
    (events r o).filterMap got? = ((served? r o).map Delivery.data).toList := by
  cases o with
  | pushed t key d queue =>
      cases queue with
      | nil => by_cases ht : t = r <;> simp [events, served?, delivered?, got?, ht]
      | cons u queue =>
          obtain ⟨hd, -⟩ := delivers_of_delivered c ho (x := ⟨t, u, key, d⟩) rfl
          -- a thread that is served is blocked, so it is not the one that pushes
          have hne : t ≠ u := by
            cases hd
            assumption
          by_cases ht : t = r
          · have hu : u ≠ r := fun h => hne (ht.trans h.symm)
            simp [events, served?, delivered?, got?, ht, hu]
          · by_cases hu : u = r <;> simp [events, served?, delivered?, got?, ht, hu]
  | awaited t key got =>
      cases got with
      | none => rfl
      | some i => by_cases ht : t = r <;> simp [events, served?, delivered?, got?, ht]
  | entered t kind => rfl
  | called t _ _ | acquired t _ | released t _ | pushFailed t _ _ | cleared t _ _
    | clearFailed t _ | awaitFailed t _ | expired t _ =>
      by_cases ht : t = r <;> simp [events, served?, delivered?, got?, ht]

/-- A thread's waits are answered with what it is served, in this order. -/
theorem inbox_eq (c : Recorded s) (r : Tid) :
    inbox r s.log = (trace r s.log).filterMap got? := by
  rw [inbox, deliveredTo, List.map_filterMap, trace, List.filterMap_flatMap,
    List.filterMap_eq_flatMap_toList]
  exact List.flatMap_congr (fun o ho => (got?_events c r ho).symm)

theorem got_of_delivered (c : Recorded s) {r : Tid} {x : Delivery S}
    (hx : x ∈ deliveredTo r s.log) : ⟨.await x.key, .got x.data⟩ ∈ trace r s.log := by
  obtain ⟨⟨o, ho, hd⟩, rfl⟩ := mem_deliveredTo.mp hx
  refine List.mem_flatMap.mpr ⟨o, ho, ?_⟩
  rw [(delivers_of_delivered c ho hd).1.event]
  exact List.mem_cons_self

end EvoGw.Deliveries
