import RegionBacking.Op

/-!
# Running operations

How an operation runs, one step at a time. Each lemma takes the first step of a sequence, from a
given state, and says what is left to run and from which state; `Run.after` keeps the effects of the
steps that were taken. A loop over a range of indices is taken as a whole: `Op.fold_range` carries
an invariant from its first index to its last, or to the index at which it stops. `Run.Shows` bounds
what a run can show, `Run.StopsFor` why it can stop, and `Run.Agrees` compares two runs; `Op.Keeps`
says of all runs of an operation what they leave alone. All four go through a sequence step by step.
-/

namespace RegionBacking

variable {ε ε' σ τ α β : Type}

/-! ## Kinds of stops -/

/-- A stop that does not say that a page without references is to lose one. -/
def Stop.Counted (stop : Stop ε) : Prop :=
  ∀ page region, stop ≠ .fault (.unreferencedPage page region)

/-- Whether a fault says that pages are not in the state that a call of their store needs. -/
def Fault.isOfPages : Fault → Bool
  | pagesCommitted .. | pagesNotCommitted .. => true
  | pretouchNotCommitted .. | pageCommittedTwice .. => true
  | _ => false

/-- Whether a fault says that the regions of a call are not there, or not in the state that the call
needs. -/
def Fault.isOfRegions : Fault → Bool
  | regionsOutOfRange .. | regionCommitted .. | regionNotCommitted .. => true
  | _ => false

/-- Whether a fault says that the pages of a call lead out of the used part or out of the machine
words. -/
def Fault.isOfBounds : Fault → Bool
  | addOverflow | mulOverflow | pagesBeyondUsed .. => true
  | _ => false

/-- Whether a call of a page space may meet a fault: its pages or their state are not as they have
to be, or its workers met one. -/
def Fault.isOfSpace (fault : Fault) : Bool :=
  fault.isOfBounds || fault.isOfPages ||
    match fault with
    | bitRangeOutOfBounds .. | inWorkers .. => true
    | _ => false

theorem Fault.counted_of_isOfRegions {fault : Fault} (h : fault.isOfRegions = true) :
    (Stop.fault fault : Stop ε).Counted := by
  intro page region hsame
  cases hsame
  cases h

theorem Fault.isOfPages_of_isOfBounds {fault : Fault} (h : fault.isOfBounds = true) :
    fault.isOfPages = false := by
  cases fault <;> first | rfl | cases h

theorem Fault.isOfSpace_of_or {fault : Fault}
    (h : fault.isOfBounds = true ∨ fault.isOfPages = true) : fault.isOfSpace = true := by
  unfold isOfSpace
  rw [(Bool.or_eq_true _ _).mpr h, Bool.true_or]

/-! ## Values that may be faults -/

/-- The parts of a sequence that comes to its end come to theirs. -/
theorem Except.of_bind_ok {first : Except ε α} {next : α → Except ε β} {value : β}
    (h : first >>= next = .ok value) : ∃ middle, first = .ok middle ∧ next middle = .ok value := by
  cases first with
  | error error => cases h
  | ok middle => exact ⟨middle, rfl, h⟩

/-! ## Runs with a past -/

/-- The run with effects that came before it. -/
def Run.after (earlier : List Effect) (run : Run ε σ α) : Run ε σ α :=
  { run with trace := earlier ++ run.trace }

namespace Run

@[simp] theorem after_nil (run : Run ε σ α) : run.after [] = run := rfl

@[simp] theorem after_mk (earlier trace : List Effect) (result : Except (Stop ε) α) (state : σ) :
    Run.after earlier ⟨result, state, trace⟩ = ⟨result, state, earlier ++ trace⟩ := rfl

/-- All effects of a run are of one kind, and so is the fault that ends it, if one does. -/
structure Shows (run : Run ε σ α) (effects : Effect → Prop) (faults : Fault → Prop) : Prop where
  of_mem : ∀ effect ∈ run.trace, effects effect
  of_fault : ∀ fault, run.result = .error (.fault fault) → faults fault

theorem Shows.mono {run : Run ε σ α} {effects effects' : Effect → Prop}
    {faults faults' : Fault → Prop} (shows : run.Shows effects faults)
    (heffects : ∀ effect, effects effect → effects' effect)
    (hfaults : ∀ fault, faults fault → faults' fault) : run.Shows effects' faults' :=
  ⟨fun effect h => heffects effect (shows.of_mem effect h),
    fun fault h => hfaults fault (shows.of_fault fault h)⟩

/-- A run does not end with an error. -/
def Granted (run : Run ε σ α) : Prop := ∀ error, run.result ≠ .error (.error error)

theorem Granted.of_ok {run : Run ε σ α} {value : α} (h : run.result = .ok value) :
    run.Granted := by
  intro error herror
  rw [h] at herror
  cases herror

/-- A run that stops early does so for one of some reasons. -/
def StopsFor (run : Run ε σ α) (reasons : Stop ε → Prop) : Prop :=
  ∀ stop, run.result = .error stop → reasons stop

theorem StopsFor.mono {run : Run ε σ α} {reasons reasons' : Stop ε → Prop}
    (stops : run.StopsFor reasons) (h : ∀ stop, reasons stop → reasons' stop) :
    run.StopsFor reasons' := fun stop hstop => h stop (stops stop hstop)

/-- Two runs end with the same result and in states that are related, and what is seen of their
effects is the same. -/
structure Agrees (related : σ → τ → Prop) (seen : Effect → Bool) (run : Run ε σ α)
    (other : Run ε τ α) : Prop where
  result_eq : other.result = run.result
  related : related run.state other.state
  seen_eq : other.trace.filter seen = run.trace.filter seen

end Run

namespace Op

/-! ## The first step of a sequence -/

/-- After a first operation that comes to its end the second one runs from where it left off. -/
theorem bind_eq_after {op : Op ε σ α} {next : α → Op ε σ β} {state after : σ} {value : α}
    {trace : List Effect} (h : op state = ⟨.ok value, after, trace⟩) :
    (op >>= next) state = (next value after).after trace := bind_run_ok h

/-- A sequence that comes to its end has gone through its first operation. -/
theorem of_bind_ok {op : Op ε σ α} {next : α → Op ε σ β} {state : σ} {value : β}
    (h : ((op >>= next) state).result = .ok value) :
    ∃ mid after trace, op state = ⟨.ok mid, after, trace⟩ ∧
      (next mid after).result = .ok value := by
  match hrun : op state with
  | ⟨.ok mid, after, trace⟩ =>
    rw [bind_eq_after hrun] at h
    exact ⟨mid, after, trace, rfl, h⟩
  | ⟨.error stop, after, trace⟩ =>
    rw [bind_run_error hrun] at h
    cases h

/-- The whole run of a sequence that comes to its end, part by part. -/
theorem of_bind_run_ok {op : Op ε σ α} {next : α → Op ε σ β} {state last : σ} {value : β}
    {trace : List Effect} (h : (op >>= next) state = ⟨.ok value, last, trace⟩) :
    ∃ mid after earlier later, op state = ⟨.ok mid, after, earlier⟩ ∧
      next mid after = ⟨.ok value, last, later⟩ ∧ trace = earlier ++ later := by
  obtain ⟨mid, after, earlier, hrun, -⟩ := of_bind_ok (congrArg Run.result h)
  rw [bind_eq_after hrun] at h
  cases hnext : next mid after with
  | mk result state later =>
    rw [hnext] at h
    cases h
    exact ⟨mid, after, earlier, later, hrun, hnext, rfl⟩

@[simp] theorem get_bind (next : σ → Op ε σ β) (state : σ) :
    ((get : Op ε σ σ) >>= next) state = next state state := rfl

@[simp] theorem modify_bind (change : σ → σ) (next : Unit → Op ε σ β) (state : σ) :
    (modify change >>= next) state = next () (change state) := rfl

@[simp] theorem emit_bind (effect : Effect) (next : Unit → Op ε σ β) (state : σ) :
    (emit effect >>= next) state = (next () state).after [effect] := bind_run_ok rfl

@[simp] theorem note_bind (record : Record) (next : Unit → Op ε σ β) (state : σ) :
    (note record >>= next) state = (next () state).after [.record record] := bind_run_ok rfl

@[simp] theorem fail_bind (fault : Fault) (next : α → Op ε σ β) :
    (fail fault >>= next) = fail fault := by
  funext state
  exact bind_run_error rfl

@[simp] theorem modify_run (change : σ → σ) (state : σ) :
    (modify change : Op ε σ Unit) state = ⟨.ok (), change state, []⟩ := rfl

@[simp] theorem note_run (record : Record) (state : σ) :
    (note record : Op ε σ Unit) state = ⟨.ok (), state, [.record record]⟩ := rfl

@[simp] theorem fail_run (fault : Fault) (state : σ) :
    (fail fault : Op ε σ α) state = ⟨.error (.fault fault), state, []⟩ := rfl

@[simp] theorem require_true (fault : Fault) : (require true fault : Op ε σ Unit) = pure () := rfl

@[simp] theorem require_false (fault : Fault) :
    (require false fault : Op ε σ Unit) = fail fault := rfl

@[simp] theorem checked_ok (value : α) : (checked (.ok value) : Op ε σ α) = pure value := rfl

@[simp] theorem checked_error (fault : Fault) :
    (checked (.error fault) : Op ε σ α) = fail fault := rfl

theorem of_checked_ok {value : Except Fault α} {result : α} {state after : σ}
    {trace : List Effect}
    (h : (checked value : Op ε σ α) state = ⟨.ok result, after, trace⟩) :
    value = .ok result ∧ after = state ∧ trace = [] := by
  cases value with
  | error fault => cases h
  | ok value =>
    cases h
    exact ⟨rfl, rfl, rfl⟩

/-! ## Errors and parts of the state -/

theorem recover_eq_ok {op : Op ε σ α} {handle : ε → Op ε' σ α} {state after : σ} {value : α}
    {trace : List Effect} (h : op state = ⟨.ok value, after, trace⟩) :
    op.recover handle state = ⟨.ok value, after, trace⟩ := by
  simp only [recover, h]

theorem recover_eq_fault {op : Op ε σ α} {handle : ε → Op ε' σ α} {state after : σ}
    {fault : Fault} {trace : List Effect} (h : op state = ⟨.error (.fault fault), after, trace⟩) :
    op.recover handle state = ⟨.error (.fault fault), after, trace⟩ := by
  simp only [recover, h]

theorem recover_eq_after {op : Op ε σ α} {handle : ε → Op ε' σ α} {state after : σ}
    {error : ε} {trace : List Effect} (h : op state = ⟨.error (.error error), after, trace⟩) :
    op.recover handle state = (handle error after).after trace := by
  simp only [recover, h]
  rfl

/-- Where an error is only turned into another one, an operation that comes to its end met none. -/
theorem of_recover_ok {op : Op ε σ α} {handle : ε → Op ε' σ α} {state after : σ} {value : α}
    {trace : List Effect} (h : op.recover handle state = ⟨.ok value, after, trace⟩)
    (hhandle : ∀ error state, ((handle error) state).result ≠ .ok value) :
    op state = ⟨.ok value, after, trace⟩ := by
  match hrun : op state with
  | ⟨.ok mid, mid', trace'⟩ =>
    rw [recover_eq_ok hrun] at h
    cases h
    rfl
  | ⟨.error (.fault fault), mid', trace'⟩ =>
    rw [recover_eq_fault hrun] at h
    cases h
  | ⟨.error (.error error), mid', trace'⟩ =>
    rw [recover_eq_after hrun] at h
    exact absurd (congrArg Run.result h) (hhandle error mid')

/-- A sequence that does not end with an error does not begin with one. -/
theorem granted_of_bind {op : Op ε σ α} {next : α → Op ε σ β} {state : σ}
    (h : ((op >>= next) state).Granted) : (op state).Granted := by
  intro error herror
  match hrun : op state with
  | ⟨result, after, trace⟩ =>
    rw [hrun] at herror
    cases herror
    exact h error (congrArg Run.result (bind_run_error hrun))

/-- Where every error is handled by another one, a run without errors handled none. -/
theorem granted_of_recover {op : Op ε σ α} {handle : ε → Op ε' σ α} {state : σ}
    (hhandle : ∀ error state, ∃ error', ((handle error) state).result = .error (.error error'))
    (h : (op.recover handle state).Granted) : (op state).Granted := by
  intro error herror
  match hrun : op state with
  | ⟨result, after, trace⟩ =>
    rw [hrun] at herror
    cases herror
    obtain ⟨error', hhandled⟩ := hhandle error after
    exact h error' ((congrArg Run.result (recover_eq_after hrun)).trans hhandled)

theorem within_run (part : τ → σ) (put : σ → τ → τ) (op : Op ε σ α) (whole : τ) :
    op.within part put whole =
      ⟨(op (part whole)).result, put (op (part whole)).state whole, (op (part whole)).trace⟩ := rfl

/-! ## What a run shows -/

section shows

variable {effects : Effect → Prop} {faults : Fault → Prop} {op : Op ε σ α} {state : σ}

theorem pure_shows (value : α) (state : σ) :
    ((pure value : Op ε σ α) state).Shows effects faults :=
  ⟨fun _ h => absurd h List.not_mem_nil, fun _ => nofun⟩

theorem refuse_shows (error : ε) (state : σ) :
    ((refuse error : Op ε σ α) state).Shows effects faults :=
  ⟨fun _ h => absurd h List.not_mem_nil, fun _ => nofun⟩

theorem modify_shows (change : σ → σ) (state : σ) :
    ((modify change : Op ε σ Unit) state).Shows effects faults :=
  ⟨fun _ h => absurd h List.not_mem_nil, fun _ => nofun⟩

theorem emit_shows {effect : Effect} (h : effects effect) (state : σ) :
    ((emit effect : Op ε σ Unit) state).Shows effects faults :=
  ⟨fun _ hmem => List.mem_singleton.mp hmem ▸ h, fun _ => nofun⟩

theorem checked_shows {value : Except Fault α} (h : ∀ fault, value = .error fault → faults fault)
    (state : σ) : ((checked value : Op ε σ α) state).Shows effects faults := by
  cases value with
  | ok value => exact pure_shows value state
  | error fault =>
    refine ⟨fun _ h => absurd h List.not_mem_nil, ?_⟩
    intro other hother
    cases hother
    exact h fault rfl

/-- A sequence shows what its parts do. The second part is known to run after the first one. -/
theorem bind_shows {next : α → Op ε σ β} (first : (op state).Shows effects faults)
    (second : ∀ value after trace, op state = ⟨.ok value, after, trace⟩ →
      (next value after).Shows effects faults) : ((op >>= next) state).Shows effects faults := by
  match hrun : op state with
  | ⟨.ok value, after, trace⟩ =>
    have hsecond := second value after trace hrun
    rw [hrun] at first
    rw [bind_eq_after hrun]
    refine ⟨?_, hsecond.of_fault⟩
    intro effect heffect
    rcases List.mem_append.mp heffect with h | h
    · exact first.of_mem effect h
    · exact hsecond.of_mem effect h
  | ⟨.error stop, after, trace⟩ =>
    rw [hrun] at first
    rw [bind_run_error hrun]
    exact ⟨first.of_mem, fun fault h => first.of_fault fault (by rw [Except.error.inj h])⟩

theorem recover_shows {handle : ε → Op ε' σ α} (first : (op state).Shows effects faults)
    (second : ∀ error after, (handle error after).Shows effects faults) :
    (op.recover handle state).Shows effects faults := by
  match hrun : op state with
  | ⟨.ok value, after, trace⟩ =>
    rw [hrun] at first
    rw [recover_eq_ok hrun]
    exact ⟨first.of_mem, fun _ => nofun⟩
  | ⟨.error (.fault fault), after, trace⟩ =>
    rw [hrun] at first
    rw [recover_eq_fault hrun]
    exact ⟨first.of_mem, fun other h => first.of_fault other (by cases h; rfl)⟩
  | ⟨.error (.error error), after, trace⟩ =>
    rw [hrun] at first
    rw [recover_eq_after hrun]
    refine ⟨?_, (second error after).of_fault⟩
    intro effect heffect
    rcases List.mem_append.mp heffect with h | h
    · exact first.of_mem effect h
    · exact (second error after).of_mem effect h

end shows

/-! ## Why a run stops -/

section stopsFor

variable {reasons : Stop ε → Prop} {op : Op ε σ α} {state : σ}

theorem pure_stopsFor (value : α) (state : σ) :
    ((pure value : Op ε σ α) state).StopsFor reasons := fun _ => nofun

theorem refuse_stopsFor {error : ε} (h : reasons (.error error)) (state : σ) :
    ((refuse error : Op ε σ α) state).StopsFor reasons := by
  intro stop hstop
  cases hstop
  exact h

/-- A sequence stops for the reasons of its parts. The second part is known to run after the first
one. -/
theorem bind_stopsFor {next : α → Op ε σ β} (first : (op state).StopsFor reasons)
    (second : ∀ value after trace, op state = ⟨.ok value, after, trace⟩ →
      (next value after).StopsFor reasons) : ((op >>= next) state).StopsFor reasons := by
  match hrun : op state with
  | ⟨.ok value, after, trace⟩ =>
    rw [bind_eq_after hrun]
    exact second value after trace hrun
  | ⟨.error stop, after, trace⟩ =>
    rw [hrun] at first
    rw [bind_run_error hrun]
    exact fun other hother => first other (by rw [Except.error.inj hother])

/-- Where every error is handled, the reasons are those of the handler and the faults. -/
theorem recover_stopsFor {reasons : Stop ε' → Prop} {handle : ε → Op ε' σ α}
    (first : ∀ fault, (op state).result = .error (.fault fault) → reasons (.fault fault))
    (second : ∀ error after, (handle error after).StopsFor reasons) :
    (op.recover handle state).StopsFor reasons := by
  match hrun : op state with
  | ⟨.ok value, after, trace⟩ =>
    rw [recover_eq_ok hrun]
    exact fun _ => nofun
  | ⟨.error (.fault fault), after, trace⟩ =>
    rw [recover_eq_fault hrun]
    intro stop hstop
    cases hstop
    exact first fault (congrArg Run.result hrun)
  | ⟨.error (.error error), after, trace⟩ =>
    rw [recover_eq_after hrun]
    exact second error after

end stopsFor

/-! ## What an operation keeps -/

/-- An operation leaves what is seen of the state in one way as it is, however it ends. -/
def Keeps {γ : Type} (seen : σ → γ) (op : Op ε σ α) : Prop :=
  ∀ state, seen (op state).state = seen state

section keeps

variable {γ : Type} {seen : σ → γ}

theorem checked_keeps (value : Except Fault α) : (checked value : Op ε σ α).Keeps seen := by
  intro state
  cases value <;> rfl

theorem require_keeps (condition : Bool) (fault : Fault) :
    (require condition fault : Op ε σ Unit).Keeps seen := by
  intro state
  cases condition <;> rfl

/-- What is seen of the state at the end of a sequence was so at the end of its first part, if the
second part keeps it. -/
theorem bind_seen_eq {op : Op ε σ α} {next : α → Op ε σ β}
    (second : ∀ value, (next value).Keeps seen) (state : σ) :
    seen ((op >>= next) state).state = seen (op state).state := by
  match hrun : op state with
  | ⟨.ok value, after, trace⟩ =>
    rw [bind_eq_after hrun]
    exact second value after
  | ⟨.error stop, after, trace⟩ => rw [bind_run_error hrun]

theorem bind_keeps {op : Op ε σ α} {next : α → Op ε σ β} (first : op.Keeps seen)
    (second : ∀ value, (next value).Keeps seen) : (op >>= next).Keeps seen :=
  fun state => (bind_seen_eq second state).trans (first state)

theorem recover_seen_eq {op : Op ε σ α} {handle : ε → Op ε' σ α}
    (second : ∀ error, (handle error).Keeps seen) (state : σ) :
    seen (op.recover handle state).state = seen (op state).state := by
  match hrun : op state with
  | ⟨.ok value, after, trace⟩ => rw [recover_eq_ok hrun]
  | ⟨.error (.fault fault), after, trace⟩ => rw [recover_eq_fault hrun]
  | ⟨.error (.error error), after, trace⟩ =>
    rw [recover_eq_after hrun]
    exact second error after

theorem recover_keeps {op : Op ε σ α} {handle : ε → Op ε' σ α} (first : op.Keeps seen)
    (second : ∀ error, (handle error).Keeps seen) : (op.recover handle).Keeps seen :=
  fun state => (recover_seen_eq second state).trans (first state)

theorem fold_keeps {step : β → α → Op ε σ β} (h : ∀ value item, (step value item).Keeps seen)
    (value : β) (items : List α) : (fold step value items).Keeps seen := by
  induction items generalizing value with
  | nil => exact fun _ => rfl
  | cons item rest ih =>
    rw [fold_cons]
    exact bind_keeps (h value item) ih

end keeps

/-! ## What the effects tell -/

/-- What is seen of the state in one way after an operation, however it ends, is told from what was
seen before it and from its effects. -/
def Replays {γ : Type} (seen : σ → γ) (tell : γ → Effect → γ) (op : Op ε σ α) : Prop :=
  ∀ state, seen (op state).state = (op state).trace.foldl tell (seen state)

section replays

variable {γ : Type} {seen : σ → γ} {tell : γ → Effect → γ}

theorem checked_replays (value : Except Fault α) :
    (checked value : Op ε σ α).Replays seen tell := by
  intro state
  cases value <;> rfl

theorem require_replays (condition : Bool) (fault : Fault) :
    (require condition fault : Op ε σ Unit).Replays seen tell := by
  intro state
  cases condition <;> rfl

theorem bind_replays {op : Op ε σ α} {next : α → Op ε σ β} (first : op.Replays seen tell)
    (second : ∀ value, (next value).Replays seen tell) : (op >>= next).Replays seen tell := by
  intro state
  have hfirst := first state
  match hrun : op state with
  | ⟨.ok value, after, trace⟩ =>
    rw [hrun] at hfirst
    rw [bind_eq_after hrun]
    show _ = (trace ++ (next value after).trace).foldl tell (seen state)
    rw [List.foldl_append, ← hfirst]
    exact second value after
  | ⟨.error stop, after, trace⟩ =>
    rw [hrun] at hfirst
    rw [bind_run_error hrun]
    exact hfirst

theorem recover_replays {op : Op ε σ α} {handle : ε → Op ε' σ α} (first : op.Replays seen tell)
    (second : ∀ error, (handle error).Replays seen tell) :
    (op.recover handle).Replays seen tell := by
  intro state
  have hfirst := first state
  match hrun : op state with
  | ⟨.ok value, after, trace⟩ =>
    rw [hrun] at hfirst
    rw [recover_eq_ok hrun]
    exact hfirst
  | ⟨.error (.fault fault), after, trace⟩ =>
    rw [hrun] at hfirst
    rw [recover_eq_fault hrun]
    exact hfirst
  | ⟨.error (.error error), after, trace⟩ =>
    rw [hrun] at hfirst
    rw [recover_eq_after hrun]
    show _ = (trace ++ (handle error after).trace).foldl tell (seen state)
    rw [List.foldl_append, ← hfirst]
    exact second error after

theorem fold_replays {step : β → α → Op ε σ β}
    (h : ∀ value item, (step value item).Replays seen tell) (value : β) (items : List α) :
    (fold step value items).Replays seen tell := by
  induction items generalizing value with
  | nil => exact fun _ => rfl
  | cons item rest ih =>
    rw [fold_cons]
    exact bind_replays (h value item) ih

end replays

/-! ## Runs that agree -/

section agrees

variable {related : σ → τ → Prop} {seen : Effect → Bool} {op : Op ε σ α} {other : Op ε τ α}
  {a : σ} {b : τ}

/-- Two sequences agree if their first parts do and the second ones do from states that are
related. -/
theorem bind_agrees {next : α → Op ε σ β} {next' : α → Op ε τ β}
    (first : (op a).Agrees related seen (other b))
    (second : ∀ value a' b', related a' b' →
      (next value a').Agrees related seen (next' value b')) :
    ((op >>= next) a).Agrees related seen ((other >>= next') b) := by
  obtain ⟨hresult, hrelated, hseen⟩ := first
  match hrun : op a, hrun' : other b with
  | ⟨.ok value, a', trace⟩, ⟨result', b', trace'⟩ =>
    rw [hrun, hrun'] at hresult hrelated hseen
    cases hresult
    have hnext := second value a' b' hrelated
    rw [bind_eq_after hrun, bind_eq_after hrun']
    refine ⟨hnext.result_eq, hnext.related, ?_⟩
    show (trace' ++ _).filter seen = (trace ++ _).filter seen
    rw [List.filter_append, List.filter_append, hseen, hnext.seen_eq]
  | ⟨.error stop, a', trace⟩, ⟨result', b', trace'⟩ =>
    rw [hrun, hrun'] at hresult hrelated hseen
    cases hresult
    rw [bind_run_error hrun, bind_run_error hrun']
    exact ⟨rfl, hrelated, hseen⟩

/-- Two operations that agree still do where their errors are handled alike. -/
theorem recover_agrees {handle : ε → Op ε' σ α} {handle' : ε → Op ε' τ α}
    (first : (op a).Agrees related seen (other b))
    (second : ∀ error a' b', related a' b' →
      (handle error a').Agrees related seen (handle' error b')) :
    ((op.recover handle) a).Agrees related seen ((other.recover handle') b) := by
  obtain ⟨hresult, hrelated, hseen⟩ := first
  match hrun : op a, hrun' : other b with
  | ⟨.ok value, a', trace⟩, ⟨result', b', trace'⟩ =>
    rw [hrun, hrun'] at hresult hrelated hseen
    cases hresult
    rw [recover_eq_ok hrun, recover_eq_ok hrun']
    exact ⟨rfl, hrelated, hseen⟩
  | ⟨.error (.fault fault), a', trace⟩, ⟨result', b', trace'⟩ =>
    rw [hrun, hrun'] at hresult hrelated hseen
    cases hresult
    rw [recover_eq_fault hrun, recover_eq_fault hrun']
    exact ⟨rfl, hrelated, hseen⟩
  | ⟨.error (.error error), a', trace⟩, ⟨result', b', trace'⟩ =>
    rw [hrun, hrun'] at hresult hrelated hseen
    cases hresult
    have hhandled := second error a' b' hrelated
    rw [recover_eq_after hrun, recover_eq_after hrun']
    refine ⟨hhandled.result_eq, hhandled.related, ?_⟩
    show (trace' ++ _).filter seen = (trace ++ _).filter seen
    rw [List.filter_append, List.filter_append, hseen, hhandled.seen_eq]

end agrees

/-! ## Loops over a range -/

/-- A loop over the indices from `start` on keeps an invariant of the index that comes next, the
value, the state and the effects so far. It ends behind its last index, or it stops at an index at
which a step stopped. -/
theorem fold_range {step : β → Nat → Op ε σ β} {start count : Nat} {value : β} {state : σ}
    (inv : Nat → β → σ → List Effect → Prop)
    (stopped : Nat → Stop ε → σ → List Effect → Prop)
    (init : inv start value state [])
    (keep : ∀ index value state trace, start ≤ index → index < start + count →
      inv index value state trace →
      (∃ next after later, step value index state = ⟨.ok next, after, later⟩ ∧
        inv (index + 1) next after (trace ++ later)) ∨
      (∃ stop after later, step value index state = ⟨.error stop, after, later⟩ ∧
        stopped index stop after (trace ++ later))) :
    (∃ last after trace, fold step value (List.range' start count) state =
        ⟨.ok last, after, trace⟩ ∧ inv (start + count) last after trace) ∨
    (∃ stop after trace index, fold step value (List.range' start count) state =
        ⟨.error stop, after, trace⟩ ∧ start ≤ index ∧ index < start + count ∧
      stopped index stop after trace) := by
  -- The induction is on what is left of the range, so the past of the loop is made a variable.
  suffices general : ∀ (left index : Nat) (value : β) (state : σ) (past : List Effect),
      start ≤ index → index + left = start + count → inv index value state past →
      (∃ last after trace, fold step value (List.range' index left) state =
          ⟨.ok last, after, trace⟩ ∧ inv (start + count) last after (past ++ trace)) ∨
      (∃ stop after trace index', fold step value (List.range' index left) state =
          ⟨.error stop, after, trace⟩ ∧ start ≤ index' ∧ index' < start + count ∧
        stopped index' stop after (past ++ trace)) by
    simpa using general count start value state [] (Nat.le_refl _) rfl init
  intro left
  induction left with
  | zero =>
    intro index value state past _ hend hinv
    obtain rfl : index = start + count := by omega
    exact Or.inl ⟨value, state, [], rfl, by rwa [List.append_nil]⟩
  | succ left ih =>
    intro index value state past hstart hend hinv
    rw [List.range'_succ, fold_cons]
    rcases keep index value state past hstart (by omega) hinv with
      ⟨next, after, later, hrun, hnext⟩ | ⟨stop, after, later, hrun, hstopped⟩
    · rw [bind_eq_after hrun]
      rcases ih (index + 1) next after (past ++ later) (by omega) (by omega) hnext with
        ⟨last, final, trace, hrest, hlast⟩ | ⟨stop, final, trace, index', hrest, hge, hlt, hstopped⟩
      · rw [hrest, Run.after_mk]
        exact Or.inl ⟨last, final, _, rfl, by rwa [← List.append_assoc]⟩
      · rw [hrest, Run.after_mk]
        exact Or.inr ⟨stop, final, _, index', rfl, hge, hlt, by rwa [← List.append_assoc]⟩
    · rw [bind_run_error hrun]
      exact Or.inr ⟨stop, after, later, index, rfl, hstart, by omega, hstopped⟩

/-- A loop that comes to its end has come to each of its indices, and past it. -/
theorem of_fold_range_ok {step : β → Nat → Op ε σ β} {start count index : Nat} {value last : β}
    {state after : σ} {trace : List Effect}
    (h : fold step value (List.range' start count) state = ⟨.ok last, after, trace⟩)
    (hge : start ≤ index) (hlt : index < start + count) :
    ∃ reached middle earlier next later shown,
      fold step value (List.range' start (index - start)) state =
        ⟨.ok reached, middle, earlier⟩ ∧
      step reached index middle = ⟨.ok next, later, shown⟩ := by
  have hrange : List.range' start count = List.range' start (index - start) ++
      index :: List.range' (index + 1) (start + count - (index + 1)) := by
    have hfirst : start + (index - start) = index := Nat.add_sub_cancel' hge
    rw [← List.range'_succ, show start + count - (index + 1) + 1 = start + count - index by omega,
      show List.range' index _ = List.range' (start + (index - start)) _ by rw [hfirst],
      List.range'_append_1]
    congr 1
    omega
  rw [hrange, fold_eq_foldlM, List.foldlM_append, ← fold_eq_foldlM] at h
  obtain ⟨reached, middle, earlier, _, hfront, hrest, -⟩ := of_bind_run_ok h
  rw [List.foldlM_cons] at hrest
  obtain ⟨next, later, shown, _, hstep, -⟩ := of_bind_run_ok hrest
  exact ⟨reached, middle, earlier, next, later, shown, hfront, hstep⟩

/-- What the steps of a loop keep that do not stop, holds when the loop came to its end. -/
theorem inv_of_fold_range_ok {step : β → Nat → Op ε σ β} {start count : Nat} {value last : β}
    {state after : σ} {trace : List Effect} (inv : Nat → β → σ → List Effect → Prop)
    (h : fold step value (List.range' start count) state = ⟨.ok last, after, trace⟩)
    (init : inv start value state [])
    (keep : ∀ index value state trace next after later, start ≤ index → index < start + count →
      inv index value state trace → step value index state = ⟨.ok next, after, later⟩ →
      inv (index + 1) next after (trace ++ later)) :
    inv (start + count) last after trace := by
  have hsteps : ∀ index value state trace, start ≤ index → index < start + count →
      inv index value state trace →
      (∃ next after later, step value index state = ⟨.ok next, after, later⟩ ∧
        inv (index + 1) next after (trace ++ later)) ∨
      (∃ stop after later, step value index state = ⟨.error stop, after, later⟩ ∧ True) := by
    intro index value state trace hge hlt hinv
    cases hrun : step value index state with
    | mk result after later =>
      cases result with
      | ok next => exact .inl ⟨next, after, later, rfl, keep _ _ _ _ _ _ _ hge hlt hinv hrun⟩
      | error stop => exact .inr ⟨stop, after, later, rfl, trivial⟩
  rcases fold_range inv (fun _ _ _ _ => True) init hsteps with
    ⟨_, _, _, hrun, hinv⟩ | ⟨_, _, _, _, hrun, -⟩
  · cases hrun.symm.trans h
    exact hinv
  · cases hrun.symm.trans h

/-- A loop whose steps stop with errors only. -/
theorem fold_range_or_error {step : β → Nat → Op ε σ β} {start count : Nat} {value : β} {state : σ}
    (inv : Nat → β → σ → List Effect → Prop) (init : inv start value state [])
    (keep : ∀ index value state trace, start ≤ index → index < start + count →
      inv index value state trace →
      (∃ next after later, step value index state = ⟨.ok next, after, later⟩ ∧
        inv (index + 1) next after (trace ++ later)) ∨
      (∃ error after later, step value index state = ⟨.error (.error error), after, later⟩)) :
    (∃ last after trace, fold step value (List.range' start count) state =
        ⟨.ok last, after, trace⟩ ∧ inv (start + count) last after trace) ∨
    (∃ error after trace, fold step value (List.range' start count) state =
        ⟨.error (.error error), after, trace⟩) := by
  refine Or.imp_right ?_ (fold_range inv
    (fun _ stop _ _ => ∃ error, stop = .error error) init ?_)
  · intro hstopped
    obtain ⟨_, after, trace, _, hrun, -, -, error, rfl⟩ := hstopped
    exact ⟨error, after, trace, hrun⟩
  · intro index value state trace hge hlt hinv
    refine Or.imp_right ?_ (keep index value state trace hge hlt hinv)
    intro hrefused
    obtain ⟨error, after, later, hrun⟩ := hrefused
    exact ⟨.error error, after, later, hrun, error, rfl⟩

/-- A loop none of whose steps stops. -/
theorem forEach_range {step : Nat → Op ε σ Unit} {start count : Nat} {state : σ}
    (inv : Nat → σ → List Effect → Prop) (init : inv start state [])
    (keep : ∀ index state trace, start ≤ index → index < start + count → inv index state trace →
      ∃ after later, step index state = ⟨.ok (), after, later⟩ ∧
        inv (index + 1) after (trace ++ later)) :
    ∃ after trace, forEach (List.range' start count) step state = ⟨.ok (), after, trace⟩ ∧
      inv (start + count) after trace := by
  have hloop : (∃ (_ : Unit) (after : σ) (trace : List Effect),
      fold (fun (_ : Unit) index => step index) () (List.range' start count) state =
        ⟨.ok (), after, trace⟩ ∧ inv (start + count) after trace) ∨
      (∃ (stop : Stop ε) (after : σ) (trace : List Effect) (index : Nat),
        fold (fun (_ : Unit) index => step index) () (List.range' start count) state =
          ⟨.error stop, after, trace⟩ ∧ start ≤ index ∧ index < start + count ∧ False) :=
    fold_range (fun index _ => inv index) (fun _ _ _ _ => False) init
      fun index _ state trace hge hlt hinv =>
        have ⟨after, later, hrun, hnext⟩ := keep index state trace hge hlt hinv
        Or.inl ⟨(), after, later, hrun, hnext⟩
  rcases hloop with ⟨_, after, trace, hrun, hinv⟩ | ⟨_, _, _, _, _, _, _, hfalse⟩
  · exact ⟨after, trace, hrun, hinv⟩
  · exact hfalse.elim

end Op

end RegionBacking
