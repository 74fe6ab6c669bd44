import HookSplice.Proofs.DispatchDepth
import HookSplice.Proofs.SubscriberLists

/-!
# What happens on a bus

Scripts run on a bus that starts empty, and handlers that a dispatch runs may subscribe, unsubscribe
and dispatch in their turn, to any depth.  At every moment the bus shows the subscriptions that were
made and not ended yet, and every dispatch runs those of its hook that were live when it started,
each once and in order, whatever happens on the bus until it ends.  This holds for dispatches that
come back, and for what is seen of the others down to some depth.
-/

namespace HookSplice.Event

variable {ρ : Type}

/-! ### Moments -/

/-- What can happen on a bus. -/
inductive Act (ρ : Type) where
  | subscribed (registration : Registration ρ)
  | unsubscribed (subscription : Subscription) (answer : Bool)
  /-- A dispatch starts. -/
  | started (hook : String)
  /-- The innermost dispatch under way runs a subscriber. -/
  | ran (subscriber : Subscriber ρ)
  /-- The innermost dispatch under way ends. -/
  | ended

/-- Something that happens, and the bus behind it. -/
structure Moment (ρ : Type) where
  act : Act ρ
  bus : Bus ρ

/-- What happens while a handler runs, up to a dispatch that does not come back.  `observed` is what
    happens in the dispatches that it starts. -/
def Script.moments (nested : Dispatcher ρ)
    (observed : String → Payload → BusState ρ → List (Moment ρ)) :
    Script ρ → Payload → BusState ρ → List (Moment ρ)
  | finish _, _, _ => []
  | read next, p, s => (next p).moments nested observed p s
  | write payload next, _, s => next.moments nested observed payload s
  | note entry next, p, s =>
      next.moments nested observed p { s with notes := s.notes ++ [entry] }
  | consult next, p, s => (next s.notes).moments nested observed p s
  | survey next, p, s => (next s.bus.view).moments nested observed p s
  | subscribe hook handler next, p, s =>
      let (subscription, bus) := s.bus.subscribe hook handler
      ⟨.subscribed ⟨subscription, handler⟩, bus⟩ ::
        (next subscription).moments nested observed p { s with bus := bus }
  | unsubscribe subscription next, p, s =>
      let (live, bus) := s.bus.unsubscribe subscription
      ⟨.unsubscribed subscription live, bus⟩ ::
        (next live).moments nested observed p { s with bus := bus }
  | dispatch hook payload next, p, s =>
      observed hook payload s ++
        match nested hook payload s with
        | some (delivery, s') => (next delivery).moments nested observed p s'
        | none => []

/-- What happens from the first of some subscribers to the end of their dispatch, or up to a
    subscriber that does not come back. -/
def deliverMoments (nested : Dispatcher ρ)
    (observed : String → Payload → BusState ρ → List (Moment ρ)) :
    List (Subscriber ρ) → Payload → BusState ρ → List (Moment ρ)
  | [], _, s => [⟨.ended, s.bus⟩]
  | subscriber :: rest, p, s =>
      ⟨.ran subscriber, s.bus⟩ :: subscriber.handler.moments nested observed p s ++
        match subscriber.handler.run nested p s with
        | some (_, p', s') => deliverMoments nested observed rest p' s'
        | none => []

/-- What happens in a dispatch that a handler starts, when dispatches inside each other are followed
    down to a depth. -/
def momentsWithin : Nat → String → Payload → BusState ρ → List (Moment ρ)
  | 0 => fun _ _ _ => []
  | n + 1 => fun hook payload s =>
      ⟨.started hook, s.bus⟩ :: deliverMoments (dispatchWithin n) (momentsWithin n)
        (s.bus.subscribersOf hook) payload s

/-- The registrations that are live behind an act. -/
def Act.apply (live : List (Registration ρ)) : Act ρ → List (Registration ρ)
  | subscribed registration => live ++ [registration]
  | unsubscribed subscription _ => Bus.without subscription live
  | started _ | ran _ | ended => live

/-- The registrations made and not ended yet, in the order they were made. -/
def liveAfter (acts : List (Act ρ)) : List (Registration ρ) :=
  acts.foldl Act.apply []

/-- The subscribers that a dispatch runs, and whether it ends, when it is the one `depth` dispatches
    further out than the one that the acts start in. -/
def turns : Nat → List (Act ρ) → List (Subscriber ρ) × Bool
  | _, [] => ([], false)
  | depth, .started _ :: later => turns (depth + 1) later
  | 0, .ended :: _ => ([], true)
  | depth + 1, .ended :: later => turns depth later
  | 0, .ran subscriber :: later => (turns 0 later).map (subscriber :: ·) id
  | depth, _ :: later => turns depth later

/-- The turns of a dispatch are those of its first subscribers, and of all of them once it has
    ended. -/
def Serves (turns : List (Subscriber ρ) × Bool) (subscribers : List (Subscriber ρ)) : Prop :=
  turns.1 <+: subscribers ∧ (turns.2 → turns.1 = subscribers)

/-! ### Accounts of what happens -/

/-- An act and the bus behind it fit the registrations that were live before, and what happens
    later. -/
structure Moment.Fits (m : Moment ρ) (live : List (Registration ρ)) (later : List (Act ρ)) :
    Prop where
  tracks : m.bus.Tracks (m.act.apply live)
  answers : ∀ subscription answer, m.act = .unsubscribed subscription answer →
    (answer = true ↔ ∃ r ∈ live, r.subscription = subscription)
  runs : ∀ hook, m.act = .started hook → Serves (turns 0 later) (liveOn hook live)

/-- Every moment fits what comes before and behind it. -/
def Accurate : List (Registration ρ) → List (Moment ρ) → Prop
  | _, [] => True
  | live, m :: rest => m.Fits live (rest.map Moment.act) ∧ Accurate (m.act.apply live) rest

/-- The registrations that are live behind some moments. -/
def liveBehind (live : List (Registration ρ)) (moments : List (Moment ρ)) :
    List (Registration ρ) :=
  (moments.map Moment.act).foldl Act.apply live

/-- Moments that lead from live registrations to a bus, and belong to no dispatch under way before
    them. -/
structure Leads (live : List (Registration ρ)) (moments : List (Moment ρ)) (b : Bus ρ) :
    Prop where
  accurate : ∀ rest, Accurate (liveBehind live moments) rest → Accurate live (moments ++ rest)
  apart : ∀ depth later, turns depth (moments.map Moment.act ++ later) = turns depth later
  tracks : b.Tracks (liveBehind live moments)

namespace Leads

variable {live : List (Registration ρ)} {b b' : Bus ρ} {moments more : List (Moment ρ)}

theorem nil (tracks : b.Tracks live) : Leads live [] b :=
  ⟨fun _ accurate => accurate, fun _ _ => rfl, tracks⟩

theorem liveBehind_append (live : List (Registration ρ)) (moments more : List (Moment ρ)) :
    liveBehind live (moments ++ more) = liveBehind (liveBehind live moments) more := by
  simp [liveBehind]

theorem append (first : Leads live moments b) (second : Leads (liveBehind live moments) more b') :
    Leads live (moments ++ more) b' := by
  refine ⟨fun rest accurate => ?_, fun depth later => ?_, ?_⟩
  · rw [List.append_assoc]
    refine first.accurate _ (second.accurate rest ?_)
    rwa [← liveBehind_append]
  · rw [List.map_append, List.append_assoc, first.apart, second.apart]
  · rw [liveBehind_append]
    exact second.tracks

theorem subscribe (tracks : b.Tracks live) (hook : String) (handler : Script ρ) :
    Leads live [⟨.subscribed ⟨(b.subscribe hook handler).1, handler⟩, (b.subscribe hook handler).2⟩]
      (b.subscribe hook handler).2 := by
  have tracks' := tracks.subscribe hook handler
  refine ⟨fun rest accurate => ⟨⟨tracks', nofun, nofun⟩, accurate⟩, fun depth later => ?_, tracks'⟩
  cases depth <;> rfl

theorem unsubscribe (tracks : b.Tracks live) (subscription : Subscription) :
    Leads live [⟨.unsubscribed subscription (b.unsubscribe subscription).1,
      (b.unsubscribe subscription).2⟩] (b.unsubscribe subscription).2 := by
  obtain ⟨answers, tracks'⟩ := tracks.unsubscribe subscription
  refine ⟨fun rest accurate => ⟨⟨tracks', ?_, nofun⟩, accurate⟩, fun depth later => ?_, tracks'⟩
  · rintro _ _ ⟨⟩
    exact answers
  · cases depth <;> rfl

end Leads

/-- Moments that a dispatch under way ends with: it still runs the given subscribers, and leaves the
    bus behind. -/
structure Delivers (live : List (Registration ρ)) (moments : List (Moment ρ))
    (subscribers : List (Subscriber ρ)) (b : Bus ρ) : Prop where
  accurate : ∀ rest, Accurate (liveBehind live moments) rest → Accurate live (moments ++ rest)
  own : ∀ later, turns 0 (moments.map Moment.act ++ later) = (subscribers, true)
  outer : ∀ depth later, turns (depth + 1) (moments.map Moment.act ++ later) = turns depth later
  tracks : b.Tracks (liveBehind live moments)

namespace Delivers

variable {live : List (Registration ρ)} {b b' : Bus ρ} {moments more : List (Moment ρ)}
  {subscribers : List (Subscriber ρ)}

theorem ends (tracks : b.Tracks live) : Delivers live [⟨.ended, b⟩] [] b :=
  ⟨fun _ accurate => ⟨⟨tracks, nofun, nofun⟩, accurate⟩, fun _ => rfl, fun _ _ => rfl, tracks⟩

/-- The next subscriber runs. -/
theorem turn (tracks : b.Tracks live) (subscriber : Subscriber ρ) {b₁ : Bus ρ}
    (runs : Leads live moments b₁) (rest : Delivers (liveBehind live moments) more subscribers b') :
    Delivers live (⟨.ran subscriber, b⟩ :: moments ++ more) (subscriber :: subscribers) b' := by
  have joined : liveBehind live (⟨.ran subscriber, b⟩ :: moments ++ more) =
      liveBehind (liveBehind live moments) more :=
    Leads.liveBehind_append live moments more
  refine ⟨fun later accurate => ⟨⟨tracks, nofun, nofun⟩, ?_⟩, fun later => ?_,
    fun depth later => ?_, ?_⟩
  · show Accurate live ((moments ++ more) ++ later)
    rw [List.append_assoc]
    refine runs.accurate _ (rest.accurate later ?_)
    rwa [← joined]
  · show (turns 0 ((moments ++ more).map Moment.act ++ later)).map (subscriber :: ·) id = _
    rw [List.map_append, List.append_assoc, runs.apart, rest.own]
    rfl
  · show turns (depth + 1) ((moments ++ more).map Moment.act ++ later) = _
    rw [List.map_append, List.append_assoc, runs.apart, rest.outer]
  · rw [joined]
    exact rest.tracks

/-- A dispatch from its start on belongs to none that was under way before. -/
theorem leads {hook : String} (tracks : b.Tracks live)
    (dispatch : Delivers live moments (b.subscribersOf hook) b') :
    Leads live (⟨.started hook, b⟩ :: moments) b' := by
  refine ⟨fun rest accurate => ⟨⟨tracks, nofun, ?_⟩, dispatch.accurate rest accurate⟩,
    fun depth later => ?_, dispatch.tracks⟩
  · rintro _ ⟨⟩
    show Serves (turns 0 ((moments ++ rest).map Moment.act)) _
    rw [← tracks.subscribers, List.map_append, dispatch.own]
    exact ⟨List.prefix_rfl, fun _ => rfl⟩
  · cases depth <;> exact dispatch.outer _ later

end Delivers

/-! ### Dispatches that do not come back -/

/-- Moments that do not come to an end, and belong to no dispatch under way before them. -/
structure Stops (live : List (Registration ρ)) (moments : List (Moment ρ)) : Prop where
  accurate : Accurate live moments
  apart : ∀ depth, turns depth (moments.map Moment.act) = ([], false)

/-- Moments that a dispatch under way does not end with: it still runs the first of the given
    subscribers. -/
structure Stalls (live : List (Registration ρ)) (moments : List (Moment ρ))
    (subscribers : List (Subscriber ρ)) : Prop where
  accurate : Accurate live moments
  own : ∃ front, front <+: subscribers ∧ turns 0 (moments.map Moment.act) = (front, false)
  outer : ∀ depth, turns (depth + 1) (moments.map Moment.act) = ([], false)

/-- Moments lead to the bus behind them, if they come to an end. -/
def Traced (live : List (Registration ρ)) (moments : List (Moment ρ)) : Option (Bus ρ) → Prop
  | some b => Leads live moments b
  | none => Stops live moments

/-- Moments are the last ones of a dispatch, if it comes to an end. -/
def Served (live : List (Registration ρ)) (moments : List (Moment ρ))
    (subscribers : List (Subscriber ρ)) : Option (Bus ρ) → Prop
  | some b => Delivers live moments subscribers b
  | none => Stalls live moments subscribers

section Stopping

variable {live : List (Registration ρ)} {b : Bus ρ} {moments more : List (Moment ρ)}
  {subscribers : List (Subscriber ρ)} {result : Option (Bus ρ)}

theorem Leads.traced (first : Leads live moments b)
    (rest : Traced (liveBehind live moments) more result) :
    Traced live (moments ++ more) result := by
  cases result with
  | some => exact first.append rest
  | none =>
      refine ⟨first.accurate more rest.accurate, fun depth => ?_⟩
      rw [List.map_append, first.apart, rest.apart]

/-- The next subscriber comes back. -/
theorem Leads.served (tracks : b.Tracks live) (subscriber : Subscriber ρ) {b₁ : Bus ρ}
    (runs : Leads live moments b₁)
    (rest : Served (liveBehind live moments) more subscribers result) :
    Served live (⟨.ran subscriber, b⟩ :: moments ++ more) (subscriber :: subscribers) result := by
  cases result with
  | some => exact .turn tracks subscriber runs rest
  | none =>
      obtain ⟨front, first, own⟩ := rest.own
      refine ⟨⟨⟨tracks, nofun, nofun⟩, runs.accurate more rest.accurate⟩,
        ⟨subscriber :: front, (List.prefix_cons_inj subscriber).mpr first, ?_⟩, fun depth => ?_⟩
      · show (turns 0 ((moments ++ more).map Moment.act)).map (subscriber :: ·) id = _
        rw [List.map_append, runs.apart, own]
        rfl
      · show turns (depth + 1) ((moments ++ more).map Moment.act) = _
        rw [List.map_append, runs.apart, rest.outer]

/-- The next subscriber does not come back. -/
theorem Stops.stalls (tracks : b.Tracks live) (subscriber : Subscriber ρ)
    (runs : Stops live moments) (subscribers : List (Subscriber ρ)) :
    Stalls live (⟨.ran subscriber, b⟩ :: moments) (subscriber :: subscribers) := by
  refine ⟨⟨⟨tracks, nofun, nofun⟩, runs.accurate⟩,
    ⟨[subscriber], (List.prefix_cons_inj subscriber).mpr (List.nil_prefix), ?_⟩,
    fun depth => runs.apart _⟩
  show (turns 0 (moments.map Moment.act)).map (subscriber :: ·) id = _
  rw [runs.apart]
  rfl

/-- A dispatch from its start on belongs to none that was under way before. -/
theorem Served.traced {hook : String} (tracks : b.Tracks live)
    (dispatch : Served live moments (b.subscribersOf hook) result) :
    Traced live (⟨.started hook, b⟩ :: moments) result := by
  cases result with
  | some => exact Delivers.leads tracks dispatch
  | none =>
      obtain ⟨front, first, own⟩ := dispatch.own
      refine ⟨⟨⟨tracks, nofun, ?_⟩, dispatch.accurate⟩, fun depth => ?_⟩
      · rintro _ ⟨⟩
        rw [← tracks.subscribers, own]
        exact ⟨first, nofun⟩
      · cases depth <;> exact dispatch.outer _

end Stopping

/-! ### Runs -/

section Runs

variable {nested : Dispatcher ρ} {observed : String → Payload → BusState ρ → List (Moment ρ)}

/-- What is observed of nested dispatches leads to the bus behind those that come back. -/
def Observes (nested : Dispatcher ρ)
    (observed : String → Payload → BusState ρ → List (Moment ρ)) : Prop :=
  ∀ (hook : String) (payload : Payload) (s : BusState ρ) (live : List (Registration ρ)),
    s.bus.Tracks live →
      Traced live (observed hook payload s) ((nested hook payload s).map fun r => r.2.bus)

theorem Observes.script (observes : Observes nested observed) (script : Script ρ) (p : Payload)
    (s : BusState ρ) {live : List (Registration ρ)} (tracks : s.bus.Tracks live) :
    Traced live (script.moments nested observed p s)
      ((script.run nested p s).map fun r => r.2.2.bus) := by
  induction script generalizing p s live with
  | finish ending => exact Leads.nil tracks
  | read next ih => exact ih p p s tracks
  | write payload next ih => exact ih payload s tracks
  | note entry next ih => exact ih p _ tracks
  | consult next ih => exact ih s.notes p s tracks
  | survey next ih => exact ih s.bus.view p s tracks
  | subscribe hook handler next _ ih =>
      have first := Leads.subscribe tracks hook handler
      exact first.traced (ih _ p { s with bus := _ } first.tracks)
  | unsubscribe subscription next ih =>
      have first := Leads.unsubscribe tracks subscription
      exact first.traced (ih _ p { s with bus := _ } first.tracks)
  | dispatch hook payload next ih =>
      have first := observes hook payload s live tracks
      unfold Script.moments Script.run
      cases result : nested hook payload s with
      | none =>
          rw [result] at first
          rw [List.append_nil]
          exact first
      | some result' =>
          obtain ⟨d, s'⟩ := result'
          rw [result] at first
          exact Leads.traced first (ih d p s' (Leads.tracks first))

theorem Observes.delivers (observes : Observes nested observed)
    (subscribers : List (Subscriber ρ)) (position : Nat) (p : Payload) (s : BusState ρ)
    {live : List (Registration ρ)} (tracks : s.bus.Tracks live) :
    Served live (deliverMoments nested observed subscribers p s) subscribers
      ((deliverFrom nested position subscribers p s).map fun r => r.2.2.bus) := by
  induction subscribers generalizing position p s live with
  | nil => exact Delivers.ends tracks
  | cons subscriber rest ih =>
      have runs := observes.script subscriber.handler p s tracks
      unfold deliverMoments
      cases result : subscriber.handler.run nested p s with
      | none =>
          rw [result] at runs
          rw [deliverFrom_of_none result, List.append_nil]
          exact Stops.stalls tracks subscriber runs rest
      | some result' =>
          obtain ⟨ending, p', s'⟩ := result'
          rw [result] at runs
          have others := ih (position + 1) p' s' (Leads.tracks runs)
          have same := congrArg (Option.map fun r : Payload × BusState ρ => r.2.bus)
            (@map_deliverFrom_cons _ nested position _ _ _ _ _ _ result rest)
          rw [Option.map_map, Option.map_map] at same
          exact Leads.served tracks subscriber runs (same ▸ others)

theorem observes_within (n : Nat) : Observes (ρ := ρ) (dispatchWithin n) (momentsWithin n) := by
  induction n with
  | zero => exact fun _ _ _ _ _ => ⟨trivial, fun _ => rfl⟩
  | succ n ih =>
      intro hook payload s live tracks
      have served := ih.delivers (s.bus.subscribersOf hook) 0 payload s tracks
      have same := congrArg (Option.map BusState.bus)
        (@map_deliver _ (dispatchWithin n) hook payload s)
      rw [Option.map_map, Option.map_map] at same
      exact same ▸ served.traced tracks

end Runs

/-- A moment fits the acts before and behind it: the bus shows the registrations that are live then,
    ending a subscription succeeds exactly if it was live, and a dispatch that starts runs the
    subscribers of its hook that are live, each once and in order, until it ends; if it does not
    end, it runs the first of them. -/
structure Moment.Faithful (m : Moment ρ) (earlier later : List (Act ρ)) : Prop where
  shows : m.bus.Shows (liveAfter (earlier ++ [m.act]))
  answers : ∀ subscription answer, m.act = .unsubscribed subscription answer →
    (answer = true ↔ ∃ r ∈ liveAfter earlier, r.subscription = subscription)
  runs : ∀ hook, m.act = .started hook →
    Serves (turns 0 later) (liveOn hook (liveAfter earlier))

theorem Accurate.faithful {moments : List (Moment ρ)} {earlier : List (Act ρ)}
    (accurate : Accurate (liveAfter earlier) moments) {before after : List (Moment ρ)}
    {m : Moment ρ} (split : moments = before ++ m :: after) :
    m.Faithful (earlier ++ before.map Moment.act) (after.map Moment.act) := by
  induction before generalizing moments earlier with
  | nil =>
      subst split
      obtain ⟨fits, -⟩ := accurate
      rw [List.map_nil, List.append_nil]
      refine ⟨?_, fits.answers, fits.runs⟩
      have behind : liveAfter (earlier ++ [m.act]) = m.act.apply (liveAfter earlier) := by
        simp [liveAfter]
      rw [behind]
      exact fits.tracks.shows
  | cons first before ih =>
      subst split
      obtain ⟨-, accurate⟩ := accurate
      have behind : liveAfter (earlier ++ [first.act]) = first.act.apply (liveAfter earlier) := by
        simp [liveAfter]
      rw [← behind] at accurate
      simpa using ih accurate rfl

/-- Subscriptions over any interleaving.  Whatever a script does on a bus that starts empty, and
    whatever the handlers that it subscribes do, to any depth of dispatches: every moment fits what
    happens before and behind it, also where a dispatch does not come back, and the bus that is left
    when the script comes back shows what is live in the end. -/
theorem moments_faithful (n : Nat) (script : Script ρ) (payload : Payload) :
    (∀ before m after,
      script.moments (dispatchWithin n) (momentsWithin n) payload .empty = before ++ m :: after →
        m.Faithful (before.map Moment.act) (after.map Moment.act)) ∧
      ∀ result, script.run (dispatchWithin n) payload .empty = some result →
        result.2.2.bus.Shows (liveAfter
          ((script.moments (dispatchWithin n) (momentsWithin n) payload .empty).map
            Moment.act)) := by
  have traced := (observes_within n).script script payload .empty Bus.tracks_empty
  have accurate : Accurate (liveAfter [])
      (script.moments (dispatchWithin n) (momentsWithin n) payload .empty) := by
    cases ran : script.run (dispatchWithin n) payload .empty with
    | none =>
        rw [ran] at traced
        exact Stops.accurate traced
    | some result =>
        rw [ran] at traced
        have whole := Leads.accurate traced [] trivial
        rwa [List.append_nil] at whole
  refine ⟨fun before m after split => accurate.faithful split, fun result ran => ?_⟩
  rw [ran] at traced
  exact (Leads.tracks traced).shows

end HookSplice.Event
