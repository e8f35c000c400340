import Mathlib.Data.List.DropRight
import RegionBacking.Proofs.Running
import RegionBacking.Trail

/-!
# What a trail retains

A trail takes calls one after the other: events to log, to be turned on or off, to be cleared, or to
be set up anew. Which events it accepts is said from the calls alone (`Trail.accepted`). A call that
logs an event is done in one step: where the event is accepted, the latest ones are retained with it
(`latest_concat`), and so it is by induction after all calls (`Retains`).

One thing keeps an accepted event out of a trail. On the console in the form for people a range of
regions is written with its end, and an end that is no word is a fault before the event is retained
(`Trail.loses`). The trail has the latest of all accepted events just if none of those was lost.
-/

namespace RegionBacking

/-- A call on a trail. A trail that is configured is set up anew. -/
inductive TrailCall where
  | log (stamp : String) (event : Event)
  | enable
  | disable
  | clear
  | configure (settings : TrailSettings)

namespace TrailCall

/-- The settings that a call brings. -/
def settings? : TrailCall → Option TrailSettings
  | configure settings => some settings
  | _ => none

/-- Whether a call turns a trail on or off. -/
def switch? : TrailCall → Option Bool
  | enable | configure _ => some true
  | disable => some false
  | _ => none

/-- Whether a trail has no events after a call. -/
def empties : TrailCall → Bool
  | clear | configure _ => true
  | _ => false

/-- Makes a call. -/
def make : TrailCall → Op Empty Trail (Option ConsoleLine)
  | log stamp event => Trail.log stamp event
  | enable => do
    Op.modify Trail.enable
    pure none
  | disable => do
    Op.modify Trail.disable
    pure none
  | clear => do
    Op.modify Trail.clear
    pure none
  | configure settings => do
    Op.modify fun _ => .create settings
    pure none

end TrailCall

/-! ## Lines that cannot be written -/

namespace Event

/-- The start and the count of the regions that an event names. -/
def regions? : Event → Option (Nat × Nat)
  | commit _ start count .. | uncommit _ start count _ | commitFailure _ start count _ =>
    some (start, count)
  | _ => none

/-- Whether an event names regions whose end is no word. -/
def endless (event : Event) : Bool :=
  match event.regions? with
  | some (start, count) => decide (Word.limit ≤ start + count)
  | none => false

/-- An event has a line for people just if the end of its regions is a word. -/
theorem human_cases (event : Event) :
    event.endless = true ∧ event.human = .error .addOverflow ∨
      event.endless = false ∧ ∃ line, event.human = .ok line := by
  -- The three kinds of events that name regions ask for their end first.
  have hsum : ∀ (start count : Nat) (line : Nat → String),
      decide (Word.limit ≤ start + count) = true ∧
          (Word.add start count >>= fun stop => pure (line stop)) =
            (Except.error .addOverflow : Except Fault String) ∨
        decide (Word.limit ≤ start + count) = false ∧
          ∃ text, (Word.add start count >>= fun stop => pure (line stop)) =
            (Except.ok text : Except Fault String) := by
    intro start count line
    by_cases hword : start + count < Word.limit
    · refine .inr ⟨decide_eq_false (by omega), line (start + count), ?_⟩
      rw [Word.add, if_pos hword]
      rfl
    · refine .inl ⟨decide_eq_true (by omega), ?_⟩
      rw [Word.add, if_neg hword]
      rfl
  cases event with
  | reserve => exact .inr ⟨rfl, _, rfl⟩
  | commit kind start count pages zeroFilled => exact hsum start count _
  | uncommit kind start count pages => exact hsum start count _
  | commitFailure kind start count reason => exact hsum start count _
  | pretouch => exact .inr ⟨rfl, _, rfl⟩
  | placement => exact .inr ⟨rfl, _, rfl⟩

end Event

namespace Trail

variable {start : TrailSettings} {calls : List TrailCall} {call : TrailCall} {trail : Trail}
  {stamp : String} {event : Event}

/-- Whether an event that is accepted is lost: its line for people is to be written and cannot
be. -/
def loses (settings : TrailSettings) (event : Event) : Bool :=
  settings.console && !settings.json && event.endless

/-! ## One call -/

theorem log_of_not_accepts {ε : Type} (h : trail.accepts event = false) :
    (log stamp event : Op ε Trail _) trail = ⟨.ok none, trail, []⟩ := by
  rw [log, Op.get_bind, h]
  rfl

/-- An event that is lost leaves the trail as it was. -/
theorem log_of_loses {ε : Type} (h : trail.accepts event = true)
    (hloses : loses trail.settings event = true) :
    (log stamp event : Op ε Trail _) trail = ⟨.error (.fault .addOverflow), trail, []⟩ := by
  simp only [loses, Bool.and_eq_true, Bool.not_eq_true'] at hloses
  obtain ⟨⟨hconsole, hjson⟩, hendless⟩ := hloses
  have hhuman : event.human = .error .addOverflow := by
    rcases event.human_cases with ⟨-, hhuman⟩ | ⟨hword, -⟩
    · exact hhuman
    · rw [hendless] at hword
      cases hword
  have hline : consoleLine trail.settings stamp event = .error .addOverflow := by
    rw [consoleLine, hjson, if_neg Bool.false_ne_true, hhuman]
    rfl
  rw [log, Op.get_bind, h, hconsole, hline]
  rfl

/-- Any other event that is accepted is pushed behind those that the trail has. -/
theorem log_of_accepts {ε : Type} (stamp : String) (h : trail.accepts event = true)
    (hkept : loses trail.settings event = false) :
    ∃ line, (log stamp event : Op ε Trail _) trail =
      ⟨.ok line, { trail with events := push trail.settings.capacity trail.events event }, []⟩ := by
  cases hconsole : trail.settings.console with
  | false =>
    refine ⟨none, ?_⟩
    rw [log, Op.get_bind, h, hconsole]
    rfl
  | true =>
    obtain ⟨line, hline⟩ : ∃ line, consoleLine trail.settings stamp event = .ok line := by
      cases hjson : trail.settings.json with
      | true =>
        rw [consoleLine, hjson]
        exact ⟨_, rfl⟩
      | false =>
        rcases event.human_cases with ⟨hendless, -⟩ | ⟨-, line, hhuman⟩
        · rw [loses, hconsole, hjson, hendless] at hkept
          cases hkept
        · rw [consoleLine, hjson, if_neg Bool.false_ne_true, hhuman]
          exact ⟨_, rfl⟩
    refine ⟨some line, ?_⟩
    rw [log, Op.get_bind, h, hconsole, hline]
    rfl

/-- The trail after calls. A call that is a fault leaves what it left. -/
def after (trail : Trail) (calls : List TrailCall) : Trail :=
  calls.foldl (fun trail call => (call.make trail).state) trail

theorem after_concat (trail : Trail) (calls : List TrailCall) (call : TrailCall) :
    trail.after (calls ++ [call]) = (call.make (trail.after calls)).state := by
  rw [after, List.foldl_concat, ← after]

/-! ## Accepted events -/

/-- The settings in force after calls: those that were brought last. -/
def settingsAfter (start : TrailSettings) (calls : List TrailCall) : TrailSettings :=
  (calls.filterMap TrailCall.settings?).getLast?.getD start

/-- Whether a trail is on after calls. It is to begin with. -/
def isOnAfter (calls : List TrailCall) : Bool :=
  (calls.filterMap TrailCall.switch?).getLast?.getD true

/-- The event that a call has accepted after others: the trail is on then, and the level of the
event is at most that of the settings in force. -/
def acceptedBy (start : TrailSettings) (calls : List TrailCall) : TrailCall → Option Event
  | .log _ event =>
    if isOnAfter calls = true ∧ event.level ≤ (settingsAfter start calls).level then some event
    else none
  | _ => none

/-- The events that calls have accepted, in order, since the trail was last empty: those of the calls
behind which no call empties the trail. -/
def accepted (start : TrailSettings) (calls : List TrailCall) : List Event :=
  ((List.range calls.length).filter fun i => (calls.drop i).all (!·.empties)).filterMap fun i =>
    calls[i]?.bind (acceptedBy start (calls.take i))

/-- The accepted events that are not lost. -/
def retainable (start : TrailSettings) (calls : List TrailCall) : List Event :=
  (accepted start calls).filter fun event => !loses (settingsAfter start calls) event

theorem settingsAfter_concat (start : TrailSettings) (calls : List TrailCall) (call : TrailCall) :
    settingsAfter start (calls ++ [call]) = call.settings?.getD (settingsAfter start calls) := by
  rw [settingsAfter, List.filterMap_append]
  cases hcall : call.settings? with
  | none => simp [hcall, settingsAfter]
  | some settings => simp [hcall]

theorem isOnAfter_concat (calls : List TrailCall) (call : TrailCall) :
    isOnAfter (calls ++ [call]) = call.switch?.getD (isOnAfter calls) := by
  rw [isOnAfter, List.filterMap_append]
  cases hcall : call.switch? with
  | none => simp [hcall, isOnAfter]
  | some status => simp [hcall]

/-- One call more empties the trail or adds what it accepts. -/
theorem accepted_concat (start : TrailSettings) (calls : List TrailCall) (call : TrailCall) :
    accepted start (calls ++ [call]) =
      if call.empties then []
      else accepted start calls ++ (acceptedBy start calls call).toList := by
  have hdrop : ∀ i ∈ List.range calls.length, ((calls ++ [call]).drop i).all (!·.empties) =
      ((calls.drop i).all (!·.empties) && !call.empties) := by
    intro i hi
    rw [List.drop_append_of_le_length (List.mem_range.mp hi).le, List.all_append]
    simp
  have hplace : ∀ i ∈ List.range calls.length,
      (calls ++ [call])[i]?.bind (acceptedBy start ((calls ++ [call]).take i)) =
        calls[i]?.bind (acceptedBy start (calls.take i)) := by
    intro i hi
    have hlt := List.mem_range.mp hi
    rw [List.getElem?_append_left hlt, List.take_append_of_le_length hlt.le]
  have hlast : ((calls ++ [call]).drop calls.length).all (!·.empties) = !call.empties := by
    simp
  rw [accepted, List.length_append, List.length_singleton, List.range_succ, List.filter_append,
    List.filter_congr hdrop]
  cases hempties : call.empties with
  | true => simp [hempties]
  | false =>
    simp only [Bool.not_false, Bool.and_true, List.filterMap_append, Bool.false_eq_true, if_false]
    congr 1
    · refine List.filterMap_congr fun i hi => hplace i (List.mem_filter.mp hi).1
    · cases htaken : acceptedBy start calls call <;> simp [hempties, htaken]

/-! ## The latest events -/

/-- The latest of some events, as many as there is room for. A capacity of zero is no bound. -/
def latest (capacity : Nat) (events : List Event) : List Event :=
  if capacity = 0 then events else events.rtake (min capacity events.length)

theorem latest_of_pos {capacity : Nat} (h : 0 < capacity) (events : List Event) :
    latest capacity events = events.drop (events.length - capacity) := by
  rw [latest, if_neg h.ne', List.rtake]
  congr 1
  omega

theorem latest_nil (capacity : Nat) : latest capacity [] = [] := by
  simp [latest, List.rtake]

theorem length_latest_le {capacity : Nat} (h : 0 < capacity) (events : List Event) :
    (latest capacity events).length ≤ capacity := by
  rw [latest_of_pos h, List.length_drop]
  omega

/-- The latest events are pushed out by new ones in the order in which they came. -/
theorem latest_concat (capacity : Nat) (events : List Event) (event : Event) :
    push capacity (latest capacity events) event = latest capacity (events ++ [event]) := by
  rcases Nat.eq_zero_or_pos capacity with rfl | hpos
  · rfl
  · rw [latest_of_pos hpos, latest_of_pos hpos, push, List.length_drop, List.length_append,
      List.length_singleton]
    split
    · next hfull =>
      have hskip : events.length + 1 - capacity = events.length - capacity + 1 := by omega
      rw [List.tail_drop, hskip, List.drop_append_of_le_length (by omega)]
    · next hroom =>
      have hnone : events.length - capacity = 0 := by omega
      have hnone' : events.length + 1 - capacity = 0 := by omega
      rw [hnone, hnone', List.drop_zero, List.drop_zero]

/-- Losses among the events that are pushed out anyway do not count. -/
theorem latest_filter_eq_iff (capacity : Nat) (events : List Event) (p : Event → Bool) :
    latest capacity (events.filter p) = latest capacity events ↔
      ∀ event ∈ latest capacity events, p event = true := by
  rcases Nat.eq_zero_or_pos capacity with rfl | hpos
  · exact List.filter_eq_self
  · rw [latest_of_pos hpos, latest_of_pos hpos]
    constructor
    · intro h event hevent
      rw [← h] at hevent
      exact (List.mem_filter.mp (List.mem_of_mem_drop hevent)).2
    · intro hall
      -- Only the events in front of the latest can be filtered out.
      have hsplit := List.take_append_drop (events.length - capacity) events
      have hfilter : events.filter p = (events.take (events.length - capacity)).filter p ++
          events.drop (events.length - capacity) := by
        conv_lhs => rw [← hsplit]
        rw [List.filter_append, List.filter_eq_self.mpr hall]
      have hfront : ((events.take (events.length - capacity)).filter p).length ≤
          events.length - capacity :=
        (List.length_filter_le _ _).trans (List.length_take_le _ _)
      have hskip : (events.filter p).length - capacity =
          ((events.take (events.length - capacity)).filter p).length := by
        rw [hfilter, List.length_append, List.length_drop]
        omega
      rw [hskip, hfilter, List.drop_left]

/-! ## All calls -/

/-- What a trail that was set up with some settings has after calls. -/
structure Retains (start : TrailSettings) (calls : List TrailCall) (trail : Trail) : Prop where
  settings_eq : trail.settings = settingsAfter start calls
  enabled_eq : trail.enabled = isOnAfter calls
  events_eq : trail.events = latest trail.settings.capacity (retainable start calls)

theorem retains_create (start : TrailSettings) : Retains start [] (create start) :=
  ⟨rfl, rfl, (latest_nil _).symm⟩

theorem Retains.accepts_iff (retains : Retains start calls trail) :
    trail.accepts event = true ↔
      isOnAfter calls = true ∧ event.level ≤ (settingsAfter start calls).level := by
  rw [accepts, retains.enabled_eq, retains.settings_eq, Bool.and_eq_true, decide_eq_true_iff]

/-- One call more empties the trail, or adds what it accepts and does not lose. -/
theorem retainable_concat (start : TrailSettings) (calls : List TrailCall) (call : TrailCall) :
    retainable start (calls ++ [call]) =
      if call.empties then []
      else retainable start calls ++ (acceptedBy start calls call).toList.filter fun event =>
        !loses (settingsAfter start calls) event := by
  rw [retainable, accepted_concat]
  cases hempties : call.empties with
  | true => rfl
  | false =>
    -- Only a call that empties the trail brings settings.
    have hnone : call.settings? = none := by
      cases call <;> first | rfl | cases hempties
    simp only [Bool.false_eq_true, if_false]
    rw [settingsAfter_concat, hnone, Option.getD_none, List.filter_append, ← retainable]

theorem Retains.log (retains : Retains start calls trail) (stamp : String) (event : Event) :
    Retains start (calls ++ [.log stamp event]) ((TrailCall.log stamp event).make trail).state := by
  have hsettings : trail.settings = settingsAfter start (calls ++ [.log stamp event]) :=
    retains.settings_eq.trans (settingsAfter_concat start calls (.log stamp event)).symm
  have hon : trail.enabled = isOnAfter (calls ++ [.log stamp event]) :=
    retains.enabled_eq.trans (isOnAfter_concat calls (.log stamp event)).symm
  have hevents := retainable_concat start calls (.log stamp event)
  cases haccepts : trail.accepts event with
  | false =>
    have hnone : acceptedBy start calls (.log stamp event) = none :=
      if_neg fun h => Bool.false_ne_true (haccepts.symm.trans (retains.accepts_iff.mpr h))
    have hsame : retainable start (calls ++ [.log stamp event]) = retainable start calls := by
      rw [hevents, hnone]
      exact List.append_nil _
    rw [TrailCall.make, log_of_not_accepts haccepts]
    exact ⟨hsettings, hon, hsame ▸ retains.events_eq⟩
  | true =>
    have hsome : acceptedBy start calls (.log stamp event) = some event :=
      if_pos (retains.accepts_iff.mp haccepts)
    rw [hsome, ← retains.settings_eq, Option.toList_some, List.filter_singleton] at hevents
    cases hloses : loses trail.settings event with
    | true =>
      have hsame : retainable start (calls ++ [.log stamp event]) = retainable start calls := by
        rw [hevents, hloses]
        exact List.append_nil _
      rw [TrailCall.make, log_of_loses haccepts hloses]
      exact ⟨hsettings, hon, hsame ▸ retains.events_eq⟩
    | false =>
      obtain ⟨line, hrun⟩ := log_of_accepts (ε := Empty) stamp haccepts hloses
      rw [TrailCall.make, hrun]
      refine ⟨hsettings, hon, ?_⟩
      show push trail.settings.capacity trail.events event = _
      rw [retains.events_eq, latest_concat, hevents, hloses]
      rfl

/-- One call more. -/
theorem Retains.make (retains : Retains start calls trail) (call : TrailCall) :
    Retains start (calls ++ [call]) (call.make trail).state := by
  have hsettings := settingsAfter_concat start calls call
  have hon := isOnAfter_concat calls call
  have hevents := retainable_concat start calls call
  cases call with
  | log stamp event => exact retains.log stamp event
  | enable =>
    refine ⟨retains.settings_eq.trans hsettings.symm, hon.symm, ?_⟩
    exact retains.events_eq.trans (congrArg _ (hevents.trans (List.append_nil _)).symm)
  | disable =>
    refine ⟨retains.settings_eq.trans hsettings.symm, hon.symm, ?_⟩
    exact retains.events_eq.trans (congrArg _ (hevents.trans (List.append_nil _)).symm)
  | clear =>
    refine ⟨retains.settings_eq.trans hsettings.symm, retains.enabled_eq.trans hon.symm, ?_⟩
    rw [hevents]
    exact (latest_nil _).symm
  | configure settings =>
    refine ⟨hsettings.symm, hon.symm, ?_⟩
    rw [hevents]
    exact (latest_nil _).symm

/-- All calls. -/
theorem retains_after (start : TrailSettings) (calls : List TrailCall) :
    Retains start calls ((create start).after calls) := by
  induction calls using List.reverseRecOn with
  | nil => exact retains_create start
  | append_singleton calls call retains =>
    rw [after_concat]
    exact retains.make call

/-- What is told of a trail that was set up with some settings, after calls. -/
structure Told (start : TrailSettings) (calls : List TrailCall) (trail : Trail) : Prop
    extends Retains start calls trail where
  length_le : 0 < trail.settings.capacity → trail.events.length ≤ trail.settings.capacity
  /-- All accepted events count, up to the capacity, just if none of the latest was lost. -/
  complete_iff : trail.events = latest trail.settings.capacity (accepted start calls) ↔
    ∀ event ∈ latest trail.settings.capacity (accepted start calls),
      loses trail.settings event = false
  /-- An event is lost by a fault of the call that logs it, and by nothing else. -/
  stops_iff : ∀ stamp event stop, ((log stamp event : Op Empty Trail _) trail).result = .error stop ↔
    (trail.accepts event = true ∧ loses trail.settings event = true) ∧ stop = .fault .addOverflow
  /-- A call that stops leaves the trail as it was. -/
  state_eq : ∀ (call : TrailCall) stop, (call.make trail).result = .error stop →
    (call.make trail).state = trail

theorem log_cases {ε : Type} (trail : Trail) (stamp : String) (event : Event) :
    (trail.accepts event = true ∧ loses trail.settings event = true) ∧
        (log stamp event : Op ε Trail _) trail = ⟨.error (.fault .addOverflow), trail, []⟩ ∨
      ¬ (trail.accepts event = true ∧ loses trail.settings event = true) ∧
        ∃ line, ((log stamp event : Op ε Trail _) trail).result = .ok line := by
  cases haccepts : trail.accepts event with
  | false =>
    refine .inr ⟨fun h => Bool.false_ne_true h.1, none, ?_⟩
    rw [log_of_not_accepts haccepts]
  | true =>
    cases hloses : loses trail.settings event with
    | true => exact .inl ⟨⟨rfl, rfl⟩, log_of_loses haccepts hloses⟩
    | false =>
      obtain ⟨line, hrun⟩ := log_of_accepts (ε := ε) stamp haccepts hloses
      exact .inr ⟨fun h => Bool.false_ne_true h.2, line, congrArg Run.result hrun⟩

/-- Whatever is called on a trail, it has the latest of the events that it accepted and did not lose
since it was last empty, in the order in which they were logged: as many as its capacity allows, or
all where that is zero. -/
theorem latest_retained_throughout (start : TrailSettings) (calls : List TrailCall) :
    Told start calls ((create start).after calls) := by
  have retains := retains_after start calls
  refine ⟨retains, fun hpos => ?_, ?_, fun stamp event stop => ?_, fun call stop hstop => ?_⟩
  · rw [retains.events_eq]
    exact length_latest_le hpos _
  · rw [retains.events_eq, retainable, ← retains.settings_eq, latest_filter_eq_iff]
    simp only [Bool.not_eq_true']
  · rcases log_cases (ε := Empty) ((create start).after calls) stamp event with
      ⟨hlost, hrun⟩ | ⟨hkept, line, hline⟩
    · rw [hrun, Except.error.injEq, eq_comm]
      exact ⟨fun h => ⟨hlost, h⟩, fun h => h.2⟩
    · rw [hline]
      exact iff_of_false nofun fun h => hkept h.1
  · cases call with
    | log stamp event =>
      rcases log_cases (ε := Empty) ((create start).after calls) stamp event with
        ⟨-, hrun⟩ | ⟨-, line, hline⟩
      · exact congrArg Run.state hrun
      · cases hline.symm.trans hstop
    | enable => cases hstop
    | disable => cases hstop
    | clear => cases hstop
    | configure settings => cases hstop

/-- Regions up to the largest word have an end that is no word. Written for people they are lost, and
the trail has not all that it accepted. -/
theorem endless_event_lost :
    accepted ⟨.debug, true, false, false, 4096⟩
        [.log "" (.commit .heap 18446744073709551615 1 1 true)] =
      [.commit .heap 18446744073709551615 1 1 true] ∧
    ((create ⟨.debug, true, false, false, 4096⟩).after
        [.log "" (.commit .heap 18446744073709551615 1 1 true)]).events = [] ∧
    ¬ ∀ start calls, ((create start).after calls).events =
      latest (settingsAfter start calls).capacity (accepted start calls) := by
  have haccepted : accepted ⟨.debug, true, false, false, 4096⟩
      [.log "" (.commit .heap 18446744073709551615 1 1 true)] =
        [.commit .heap 18446744073709551615 1 1 true] := by decide
  have hevents : ((create ⟨.debug, true, false, false, 4096⟩).after
      [.log "" (.commit .heap 18446744073709551615 1 1 true)]).events = [] := by decide
  refine ⟨haccepted, hevents, fun hall => ?_⟩
  have hone := hall ⟨.debug, true, false, false, 4096⟩
    [.log "" (.commit .heap 18446744073709551615 1 1 true)]
  rw [haccepted, hevents] at hone
  cases hone

end Trail

end RegionBacking
