import HookSplice.Event.Bus
import HookSplice.Proofs.Common
import HookSplice.Proofs.OrderedInsertion

/-!
# The lists of subscribers

What the lists of a bus have to do with the subscriptions that are live.  Subscribing adds one at
the end, unsubscribing takes one away, and both keep the lists in step with them.
-/

namespace HookSplice.Event

variable {ρ : Type}

/-! ### Lists by hook -/

/-- Every hook has at most one list, and none is empty. -/
structure ProperLists {α : Type} (lists : List (String × List α)) : Prop where
  distinct : (lists.map Prod.fst).Nodup
  occupied : ∀ e ∈ lists, e.2 ≠ []

namespace ProperLists

variable {α : Type} {lists : List (String × List α)} {hook : String}

theorem tail {e : String × List α} (proper : ProperLists (e :: lists)) : ProperLists lists :=
  ⟨(List.nodup_cons.mp proper.distinct).2, fun e' member => proper.occupied e' (.tail _ member)⟩

theorem keys_setList (hook : String) (list : List α) (lists : List (String × List α)) :
    ∀ key ∈ (Bus.setList hook list lists).map Prod.fst, key = hook ∨ key ∈ lists.map Prod.fst := by
  induction lists with
  | nil =>
      unfold Bus.setList
      split <;> simp
  | cons e rest ih =>
      obtain ⟨other, old⟩ := e
      unfold Bus.setList
      split
      · split <;> simp +contextual
      · intro key member
        rcases List.mem_cons.mp member with rfl | member
        · exact Or.inr (.head _)
        · exact (ih key member).imp_right (.tail _)

theorem setList (proper : ProperLists lists) (hook : String) (list : List α) :
    ProperLists (Bus.setList hook list lists) := by
  induction lists with
  | nil =>
      unfold Bus.setList
      split
      · exact proper
      · next some =>
          refine ⟨List.nodup_singleton _, fun e member => ?_⟩
          obtain rfl := List.mem_singleton.mp member
          simpa using some
  | cons e rest ih =>
      obtain ⟨other, old⟩ := e
      obtain ⟨absent, -⟩ := List.nodup_cons.mp proper.distinct
      unfold Bus.setList
      split
      · next same =>
          subst same
          split
          · exact proper.tail
          · next some =>
              refine ⟨proper.distinct, fun e member => ?_⟩
              rcases List.mem_cons.mp member with rfl | member
              · simpa using some
              · exact proper.tail.occupied e member
      · next differs =>
          refine ⟨List.nodup_cons.mpr ⟨fun member => ?_, (ih proper.tail).distinct⟩, ?_⟩
          · exact (keys_setList hook list rest other member).elim differs absent
          · intro e member
            rcases List.mem_cons.mp member with rfl | member
            · exact proper.occupied _ (.head _)
            · exact (ih proper.tail).occupied e member

theorem lookup_eq_none (absent : hook ∉ lists.map Prod.fst) : lists.lookup hook = none := by
  cases found : lists.lookup hook with
  | none => rfl
  | some list => exact absurd (HookSplice.mem_keys found) absent

theorem lookup_setList (proper : ProperLists lists) (hook : String) (list : List α)
    (other : String) : ((Bus.setList hook list lists).lookup other).getD [] =
      if other = hook then list else (lists.lookup other).getD [] := by
  induction lists with
  | nil =>
      unfold Bus.setList
      split
      · next none => simp [List.isEmpty_iff.mp none]
      · simp only [lookup_cons_eq, List.lookup_nil]
        split <;> rfl
  | cons e rest ih =>
      obtain ⟨key, old⟩ := e
      obtain ⟨absent, -⟩ := List.nodup_cons.mp proper.distinct
      unfold Bus.setList
      split
      · next same =>
          subst same
          split
          · next none =>
              rw [lookup_cons_eq]
              split
              · next same =>
                  subst same
                  rw [lookup_eq_none absent, List.isEmpty_iff.mp none]
                  rfl
              · rfl
          · simp only [lookup_cons_eq]
            split <;> rfl
      · next differs =>
          simp only [lookup_cons_eq]
          split
          · next same => rw [if_neg (same ▸ differs)]
          · exact ih proper.tail

/-- The hooks with a list are those with subscribers. -/
theorem mem_keys_iff (proper : ProperLists lists) :
    hook ∈ lists.map Prod.fst ↔ (lists.lookup hook).getD [] ≠ [] := by
  constructor
  · intro member
    obtain ⟨⟨key, list⟩, inside, rfl⟩ := List.mem_map.mp member
    rw [lookup_of_mem proper.distinct inside]
    exact proper.occupied _ inside
  · intro some
    cases found : lists.lookup hook with
    | none =>
        rw [found] at some
        exact absurd rfl some
    | some list => exact HookSplice.mem_keys found

end ProperLists

/-! ### Live subscriptions -/

/-- A subscription with the handler that it was made with. -/
structure Registration (ρ : Type) where
  subscription : Subscription
  handler : Script ρ

/-- The subscriber that a dispatch runs for a registration. -/
def Registration.subscriber (r : Registration ρ) : Subscriber ρ :=
  ⟨r.subscription.id, r.handler⟩

/-- The subscribers of a hook among live registrations. -/
def liveOn (hook : String) (live : List (Registration ρ)) : List (Subscriber ρ) :=
  (live.filter fun r => r.subscription.hook = hook).map Registration.subscriber

namespace Bus

/-- A bus shows the registrations that are live: each hook has its own in the order they were made,
    no two with the same id, and the hooks with any are listed in order. -/
structure Shows (b : Bus ρ) (live : List (Registration ρ)) : Prop where
  subscribers : ∀ hook, b.subscribersOf hook = liveOn hook live
  distinct : (live.map fun r => r.subscription.id).Nodup
  ascending : b.hooks.Pairwise fun hook other => hook < other
  hooks : ∀ hook, hook ∈ b.hooks ↔ ∃ r ∈ live, r.subscription.hook = hook

/-- A bus keeps track of the registrations that are live. -/
structure Tracks (b : Bus ρ) (live : List (Registration ρ)) : Prop where
  proper : ProperLists b.lists
  subscribers : ∀ hook, b.subscribersOf hook = liveOn hook live
  distinct : (live.map fun r => r.subscription.id).Nodup
  issued : ∀ r ∈ live, r.subscription.id < b.issued.length

theorem tracks_empty : (empty : Bus ρ).Tracks [] where
  proper := ⟨List.nodup_nil, fun _ member => absurd member List.not_mem_nil⟩
  subscribers _ := rfl
  distinct := List.nodup_nil
  issued _ member := absurd member List.not_mem_nil

theorem Tracks.shows {b : Bus ρ} {live : List (Registration ρ)} (tracks : b.Tracks live) :
    b.Shows live where
  subscribers := tracks.subscribers
  distinct := tracks.distinct
  ascending := Order.pairwise_sortByText id (by simpa using tracks.proper.distinct)
  hooks hook := by
    have listed : hook ∈ b.hooks ↔ b.subscribersOf hook ≠ [] :=
      (Order.sortByText_perm id _).mem_iff.trans tracks.proper.mem_keys_iff
    rw [listed, tracks.subscribers hook]
    simp [liveOn]

theorem liveOn_append (hook : String) (live more : List (Registration ρ)) :
    liveOn hook (live ++ more) = liveOn hook live ++ liveOn hook more := by
  simp [liveOn]

/-- Subscribing adds a registration with a new id at the end. -/
theorem Tracks.subscribe {b : Bus ρ} {live : List (Registration ρ)} (tracks : b.Tracks live)
    (hook : String) (handler : Script ρ) :
    (b.subscribe hook handler).2.Tracks (live ++ [⟨(b.subscribe hook handler).1, handler⟩]) where
  proper := tracks.proper.setList hook _
  subscribers other := by
    have added := tracks.proper.lookup_setList hook
      (b.subscribersOf hook ++ [⟨b.issued.length, handler⟩]) other
    rw [liveOn_append, ← tracks.subscribers other]
    refine added.trans ?_
    split
    · next same =>
        subst same
        simp [Bus.subscribe, liveOn, Registration.subscriber]
    · next differs => simp [Bus.subscribe, liveOn, subscribersOf, Ne.symm differs]
  distinct := by
    have fresh : ∀ r ∈ live, r.subscription.id ≠ b.issued.length := fun r member =>
      Nat.ne_of_lt (tracks.issued r member)
    simpa [List.nodup_append, Bus.subscribe, tracks.distinct] using fresh
  issued r member := by
    have longer : (b.subscribe hook handler).2.issued.length = b.issued.length + 1 := by
      simp [Bus.subscribe]
    rw [longer]
    rcases List.mem_append.mp member with member | member
    · exact Nat.lt_succ_of_lt (tracks.issued r member)
    · obtain rfl := List.mem_singleton.mp member
      exact Nat.lt_succ_self _

/-- The registrations without those of a subscription. -/
def without (subscription : Subscription) (live : List (Registration ρ)) :
    List (Registration ρ) :=
  live.filter fun r => r.subscription ≠ subscription

theorem liveOn_without (subscription : Subscription) (live : List (Registration ρ))
    (hook : String) : liveOn hook (without subscription live) =
      if hook = subscription.hook then
        (liveOn subscription.hook live).filter fun s => s.id != subscription.id
      else liveOn hook live := by
  unfold liveOn without
  rw [List.filter_filter]
  split
  · next same =>
      subst same
      rw [List.filter_map, List.filter_filter]
      refine congrArg _ (List.filter_congr fun r _ => Bool.eq_iff_iff.mpr ?_)
      obtain ⟨⟨hook', id⟩, handler⟩ := r
      by_cases same : hook' = subscription.hook
      · simp [same, Registration.subscriber, Subscription.ext_iff]
      · simp [same]
  · next differs =>
      refine congrArg _ (List.filter_congr fun r _ => Bool.eq_iff_iff.mpr ?_)
      simp only [Bool.and_eq_true, decide_eq_true_eq, and_iff_left_iff_imp]
      rintro rfl rfl
      exact differs rfl

theorem Tracks.mem_iff {b : Bus ρ} {live : List (Registration ρ)} (tracks : b.Tracks live)
    (subscription : Subscription) : (∃ r ∈ live, r.subscription = subscription) ↔
      ∃ s ∈ b.subscribersOf subscription.hook, s.id = subscription.id := by
  rw [tracks.subscribers]
  constructor
  · rintro ⟨r, member, rfl⟩
    exact ⟨r.subscriber, List.mem_map_of_mem (List.mem_filter.mpr ⟨member, by simp⟩), rfl⟩
  · rintro ⟨s, member, same⟩
    obtain ⟨r, inside, rfl⟩ := List.mem_map.mp member
    obtain ⟨inside, hook⟩ := List.mem_filter.mp inside
    refine ⟨r, inside, ?_⟩
    exact Subscription.ext (of_decide_eq_true hook) same

theorem unsubscribe_cases (b : Bus ρ) (subscription : Subscription) :
    (b.subscribersOf subscription.hook = [] ∧ b.unsubscribe subscription = (false, b)) ∨
    ∃ kept, kept = ((b.subscribersOf subscription.hook).filter fun s => s.id != subscription.id) ∧
      b.unsubscribe subscription = (kept.length != (b.subscribersOf subscription.hook).length,
        { b with lists := setList subscription.hook kept b.lists }) := by
  unfold unsubscribe subscribersOf
  cases b.lists.lookup subscription.hook with
  | none => exact Or.inl ⟨rfl, rfl⟩
  | some list => exact Or.inr ⟨_, rfl, rfl⟩

theorem filter_shorter_iff (subscribers : List (Subscriber ρ)) (id : Nat) :
    ((subscribers.filter fun s => s.id != id).length != subscribers.length) = true ↔
      ∃ s ∈ subscribers, s.id = id := by
  rw [bne_iff_ne, Ne, List.length_filter_eq_length_iff]
  simp

/-- Unsubscribing takes the registration of a subscription away, and tells whether it was live. -/
theorem Tracks.unsubscribe {b : Bus ρ} {live : List (Registration ρ)} (tracks : b.Tracks live)
    (subscription : Subscription) :
    ((b.unsubscribe subscription).1 = true ↔ ∃ r ∈ live, r.subscription = subscription) ∧
      (b.unsubscribe subscription).2.Tracks (without subscription live) := by
  have known := tracks.mem_iff subscription
  rcases b.unsubscribe_cases subscription with ⟨none, result⟩ | ⟨kept, rfl, result⟩
  · rw [none] at known
    have gone : ¬ ∃ r ∈ live, r.subscription = subscription := fun some => by
      obtain ⟨s, member, -⟩ := known.mp some
      cases member
    have same : without subscription live = live := List.filter_eq_self.mpr fun r member =>
      decide_eq_true fun equal => gone ⟨r, member, equal⟩
    rw [result, same]
    exact ⟨by simp [gone], tracks⟩
  · rw [result]
    refine ⟨(filter_shorter_iff _ _).trans known.symm, ?_⟩
    exact {
      proper := tracks.proper.setList _ _
      subscribers := fun hook => by
        rw [liveOn_without, ← tracks.subscribers, ← tracks.subscribers]
        exact tracks.proper.lookup_setList _ _ hook
      distinct := (List.filter_sublist.map _).nodup tracks.distinct
      issued := fun r member => tracks.issued r (List.mem_filter.mp member).1 }

end Bus

end HookSplice.Event
