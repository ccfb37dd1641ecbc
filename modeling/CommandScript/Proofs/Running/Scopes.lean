import CommandScript.Proofs.Running.Agreement
import CommandScript.Proofs.Running.Effects

/-! Who writes whose variables. The frame that a command is given decides: a command writes in the scope of that frame
or, if it says so, in the parent's. A function is called in a scope of its own, inside the caller's, so what it calls
reaches no further than to that. -/

namespace CommandScript

/-! ### Scopes -/

/-- A scope that was made by taking scopes inside one another: each has variables of its own, made after those of the
scope it is inside of. -/
inductive Scope.IsNested (size : Nat) : Scope → Prop where
  | root {s : Scope} (hparent : s.parent = none) (hown : s.own < size) : IsNested size s
  | child {s parent : Scope} (hparent : s.parent = some parent) (h : parent.IsNested size) (hlt : parent.own < s.own)
    (hown : s.own < size) : IsNested size s

namespace Scope.IsNested

theorem own_lt {size : Nat} {s : Scope} (h : s.IsNested size) : s.own < size := by
  cases h with
  | root _ hown => exact hown
  | child _ _ _ hown => exact hown

theorem parent_lt {size : Nat} {s parent : Scope} (h : s.IsNested size) (hp : s.parent = some parent) :
    parent.own < s.own := by
  cases h with
  | root hparent => rw [hp] at hparent; cases hparent
  | child hparent _ hlt => rw [hp] at hparent; cases hparent; exact hlt

theorem mono {size size' : Nat} {s : Scope} (h : s.IsNested size) (hle : size ≤ size') : s.IsNested size' := by
  induction h with
  | root hparent hown => exact .root hparent (by omega)
  | child hparent _ hlt hown ih => exact .child hparent ih hlt (by omega)

end Scope.IsNested

namespace Store

theorem isNested_root (st : Store) (own cache : Bindings String) :
    (st.root own cache).1.IsNested (st.root own cache).2.maps.size := by
  refine .root rfl ?_
  simp only [root, Array.size_push]
  omega

theorem isNested_child {st : Store} {s : Scope} (h : s.IsNested st.maps.size) :
    (st.child s).1.IsNested (st.child s).2.maps.size := by
  have hsize : (st.child s).2.maps.size = st.maps.size + 1 := Array.size_push ..
  refine .child rfl (h.mono (by omega)) h.own_lt ?_
  rw [hsize]
  exact Nat.lt_succ_self st.maps.size

/-! ### Writing -/

/-- Nothing is written but the variables at some places, and there are no new ones. -/
structure WritesOnly (places : Nat → Prop) (st st' : Store) : Prop where
  size : st'.maps.size = st.maps.size
  maps : ∀ i, ¬places i → st'.maps[i]? = st.maps[i]?

namespace WritesOnly

variable {places larger : Nat → Prop} {st st' st'' : Store}

theorem of_maps (h : st'.maps = st.maps) : WritesOnly places st st' :=
  ⟨congrArg Array.size h, fun i _ => congrArg (·[i]?) h⟩

theorem trans (h : WritesOnly places st st') (h' : WritesOnly places st' st'') : WritesOnly places st st'' :=
  ⟨h'.size.trans h.size, fun i hi => (h'.maps i hi).trans (h.maps i hi)⟩

theorem mono (h : WritesOnly places st st') (hle : ∀ i, places i → larger i) : WritesOnly larger st st' :=
  ⟨h.size, fun i hi => h.maps i fun hp => hi (hle i hp)⟩

end WritesOnly

theorem writesOnly_modifyOwn (st : Store) (s : Scope) (f : Bindings String → Bindings String) :
    WritesOnly (· = s.own) st (st.modifyOwn s f) := by
  refine ⟨Array.size_modify .., fun i h => ?_⟩
  simp only [modifyOwn, Array.getElem?_modify, if_neg (Ne.symm h)]

theorem writesOnly_foldl_set (bindings : List (String × String)) (s : Scope) (st : Store) :
    WritesOnly (· = s.own) st (bindings.foldl (fun st (name, value) => st.set s name value) st) := by
  induction bindings generalizing st with
  | nil => exact .of_maps rfl
  | cons binding bindings ih => exact (st.writesOnly_modifyOwn s _).trans (ih _)

theorem maps_setCache (st : Store) (s : Scope) (name value : String) (force : Bool) :
    (st.setCache s name value force).maps = st.maps := by
  unfold setCache
  split <;> rfl

end Store

namespace Session

open Text Syntax Code Command Machine

/-! ### Built-in commands -/

/-- A built-in command that is told to write variables of the parent. -/
def Builtin.WritesParent (b : Builtin) (arguments : List String) : Prop :=
  (b = .set ∧ arguments.tail.getLast? = some "PARENT_SCOPE") ∨ (b = .unset ∧ "PARENT_SCOPE" ∈ arguments.tail)

/-- The places of the variables that a command may write which is given a scope. -/
def Builtin.Reaches (b : Builtin) (arguments : List String) (scope : Scope) (i : Nat) : Prop :=
  i = scope.own ∨ (b.WritesParent arguments ∧ ∃ parent, scope.parent = some parent ∧ i = parent.own)

namespace Desk

theorem writeVariable_writesOnly (d : Desk) (scope : Scope) (name : String) (values : List String) :
    Store.WritesOnly (· = scope.own) d.store (d.writeVariable scope name values).store := by
  cases values with
  | nil => exact d.store.writesOnly_modifyOwn scope _
  | cons value values => exact d.store.writesOnly_modifyOwn scope _

theorem maps_writeEnvironment (checked : Bool) (name : String) (values : List String) (d : Desk) :
    (writeEnvironment checked name values d).2.store.maps = d.store.maps := by
  unfold writeEnvironment
  repeat' split
  all_goals rfl

theorem set_writesOnly (checked : Bool) (arguments : List String) (d : Desk) :
    Store.WritesOnly (Builtin.set.Reaches arguments d.frame.scope) d.store (set checked arguments d).2.store := by
  cases arguments with
  | nil => exact .of_maps rfl
  | cons name values =>
    simp only [set]
    split
    · exact .of_maps (maps_writeEnvironment ..)
    · split
      · exact .of_maps (Store.maps_setCache ..)
      · split
        · rename_i hword
          split
          · rename_i parent hparent
            refine (d.writeVariable_writesOnly parent name _).mono fun i hi => ?_
            exact .inr ⟨.inl ⟨rfl, hword⟩, parent, hparent, hi⟩
          · exact .of_maps rfl
        · exact (d.writeVariable_writesOnly d.frame.scope name values).mono fun _ => .inl

theorem unset_writesOnly (arguments : List String) (d : Desk) :
    Store.WritesOnly (Builtin.unset.Reaches arguments d.frame.scope) d.store (unset arguments d).2.store := by
  cases arguments with
  | nil => exact .of_maps rfl
  | cons name options =>
    simp only [unset]
    split
    · exact .of_maps rfl
    · split
      · exact .of_maps rfl
      · split
        · rename_i hword
          split
          · rename_i parent hparent
            refine (d.store.writesOnly_modifyOwn parent _).mono fun i hi => ?_
            exact .inr ⟨.inr ⟨rfl, hword⟩, parent, hparent, hi⟩
          · exact .of_maps rfl
        · exact (d.store.writesOnly_modifyOwn d.frame.scope _).mono fun _ => .inl

end Desk

/-- A built-in command makes no scopes, and writes no variables that it does not reach. -/
theorem Builtin.perform_writesOnly (checked : Bool) (b : Builtin) (arguments : List String) (d : Desk) :
    Store.WritesOnly (b.Reaches arguments d.frame.scope) d.store (b.perform checked arguments d).2.store := by
  cases b with
  | set => exact d.set_writesOnly checked arguments
  | unset => exact d.unset_writesOnly arguments
  | message =>
    simp only [perform, Desk.message]
    split <;> exact .of_maps rfl
  | returnValues | function | endFunction => exact .of_maps rfl

/-! ### Calls -/

variable {κ ω : Type}

/-- Entering a function makes a scope inside the caller's, and writes to no other. -/
theorem enterFunction_scope (f : ScriptFunction) (caller : Frame) (arguments : List String) (s : State κ ω) :
    (enterFunction f caller arguments s).1.scope = (s.store.child caller.scope).1 ∧
      (enterFunction f caller arguments s).2.frames = s.frames ∧
      s.store.maps.size < (enterFunction f caller arguments s).2.store.maps.size ∧
      ∀ i < s.store.maps.size, (enterFunction f caller arguments s).2.store.maps[i]? = s.store.maps[i]? := by
  obtain ⟨hsize, hmaps⟩ := Store.writesOnly_foldl_set (argumentBindings f arguments) (s.store.child caller.scope).1
    (s.store.child caller.scope).2
  have hchild : (s.store.child caller.scope).2.maps.size = s.store.maps.size + 1 := Array.size_push ..
  refine ⟨rfl, rfl, ?_, fun i hi => ?_⟩
  · exact Nat.lt_of_lt_of_eq (Nat.lt_succ_self _) (hsize.trans hchild).symm
  · refine (hmaps i (Nat.ne_of_lt hi)).trans ?_
    rw [Array.getElem?_eq_getElem hi]
    exact Array.getElem?_push_lt hi

end Session

namespace Running

open Text Syntax Code Command Machine Session

variable {κ ω : Type} {cfg : Config} {host : Host κ ω}

/-! ### Frames and what waits for them -/

section Standing

/-! Programs are executed in a frame of the scope `scope`, on top of the frames `outer`, in a store with `size` sets of
variables. `above` are the frames on top of those. -/

variable (size : Nat) (scope : Scope)

/-- A scope for a frame on top of `above`: the first one, and then scopes that are made as functions are called. -/
def Belongs (above : List Frame) (s : Scope) : Prop :=
  match above with
  | [] => s = scope
  | _ :: _ => size ≤ s.own ∧ ∃ parent, s.parent = some parent ∧ (parent.own = scope.own ∨ size ≤ parent.own)

/-- What a report is about. -/
inductive Matter where
  | answer | evaluation | execution

/-- What waits for a report, where every evaluation that waits for a command has its frame. -/
inductive Standing : Matter → List (Waiting ω) → List Frame → Prop where
  | nothing : Standing .execution [] []
  | programs {ps ws above} (h : Standing .execution ws above) : Standing .evaluation (.programs ps :: ws) above
  | block {opener body rest ws above} (h : Standing .execution ws above) :
    Standing .evaluation (.block opener body rest :: ws) above
  | call {ws above} (h : Standing .answer ws above) : Standing .execution (.call :: ws) above
  | command {e ws f above} (h : Standing .evaluation ws above) (hf : Belongs size scope above f.scope) :
    Standing .answer (.command e :: ws) (f :: above)

/-- What is being done or reported, with what waits for it and the frames for all that. -/
inductive Stands : Stage ω → List (Waiting ω) → List Frame → Prop where
  | execute {results ps frame ws above} (h : Standing size scope .execution ws above)
    (hf : Belongs size scope above frame.scope) : Stands (.doing (.execute results ps frame)) ws above
  | evaluate {p frame onlyResolve ws above} (h : Standing size scope .evaluation ws above)
    (hf : Belongs size scope above frame.scope) : Stands (.doing (.evaluate p frame onlyResolve)) ws above
  | goOn {e ws f above} (h : Standing size scope .evaluation ws above) (hf : Belongs size scope above f.scope) :
    Stands (.doing (.goOn e)) ws (f :: above)
  | invoke {bound name arguments ws above} (h : Standing size scope .answer ws above) :
    Stands (.doing (.invoke bound name arguments)) ws above
  | act {bound arguments action ws above} (h : Standing size scope .answer ws above) (ha : action.StaysOutside) :
    Stands (.doing (.act bound arguments action)) ws above
  | answered {result ws above} (h : Standing size scope .answer ws above) :
    Stands (.reporting (.answer result)) ws above
  | evaluated {result frame ws above} (h : Standing size scope .evaluation ws above)
    (hf : Belongs size scope above frame.scope) : Stands (.reporting (.evaluation result frame)) ws above
  | executed {result frame ws above} (h : Standing size scope .execution ws above) :
    Stands (.reporting (.execution result frame)) ws above

/-- A moment of such an execution. -/
structure IsFramed (outer : List Frame) (m : Moment κ ω) : Prop where
  size_le : size ≤ m.state.store.maps.size
  stands : ∃ above, m.state.frames = above ++ outer ∧ Stands size scope m.stage m.waiting above

end Standing

variable {size : Nat} {scope : Scope} {outer above : List Frame} {ws : List (Waiting ω)}

theorem currentFrame_of_frames {s : State κ ω} {f : Frame} {below : List Frame} (h : s.frames = f :: below) :
    s.currentFrame = f := by
  simp only [State.currentFrame, h, List.head?_cons, Option.getD_some]

/-- Whatever an evaluation settles on, its frame is still there or was the innermost one. -/
theorem Stands.settle {e : Evaluation} {s t : State κ ω} {stage : Stage ω} {f : Frame}
    (h : Standing size scope .evaluation ws above) (hf : Belongs size scope above f.scope)
    (hframes : s.frames = f :: above ++ outer) (hsettles : e.Settles s stage t) :
    ∃ above, t.frames = above ++ outer ∧ Stands size scope stage ws above := by
  cases hsettles with
  | goesOn step held rest record => exact ⟨f :: above, hframes, .goOn h hf⟩
  | ended result record =>
    refine ⟨above, congrArg List.tail hframes, ?_⟩
    have hcurrent : State.currentFrame { s with record } = f := currentFrame_of_frames hframes
    simp only [Evaluation.finish, hcurrent]
    exact .evaluated h hf

/-- The scope of a function is for a frame on top of the caller's. -/
theorem Belongs.child {f : Frame} {st : Store} (hf : Belongs size scope above f.scope) (hsize : size ≤ st.maps.size) :
    Belongs size scope (f :: above) (st.child f.scope).1 := by
  refine ⟨hsize, f.scope, rfl, ?_⟩
  cases above with
  | nil => exact .inl (congrArg Scope.own hf)
  | cons g above => exact .inr hf.1

theorem startProgram_stands (results : List String) (ps : List Program) {frame : Frame}
    (h : Standing size scope .execution ws above) (hf : Belongs size scope above frame.scope) :
    Stands size scope (startProgram (ω := ω) results ps frame).1 ((startProgram results ps frame).2 ++ ws) above := by
  cases ps with
  | nil => exact .executed h
  | cons p ps =>
    simp only [startProgram]
    split
    · exact .executed h
    · split
      · split
        · exact .executed h
        · exact .evaluate (.block h) hf
      · exact .evaluate (.programs h) hf

/-- An invocation is answered at once, begun as a host command, or goes on with the body of a function. -/
theorem startInvocation_isFramed (hhost : host.StaysOutside) {s : State κ ω} {f : Frame} {e : Evaluation}
    (h : Standing size scope .evaluation ws above) (hf : Belongs size scope above f.scope)
    (hframes : s.frames = f :: above ++ outer) (hsize : size ≤ s.store.maps.size) (bound : Nat) (name : String)
    (arguments : List String) :
    let r := startInvocation cfg host bound name arguments s
    IsFramed size scope outer ⟨r.1, r.2.1 ++ .command e :: ws, r.2.2⟩ := by
  have hstanding : Standing size scope .answer (.command e :: ws) (f :: above) := .command h hf
  simp only [startInvocation]
  split
  · exact ⟨hsize, f :: above, hframes, .answered hstanding⟩
  · rename_i b _
    obtain ⟨⟨result, returned, hsame⟩, _⟩ :=
      b.perform_keeps cfg.processEnvironment arguments ⟨s.currentFrame, s.store, s.record⟩
    have hstore := (b.perform_writesOnly cfg.processEnvironment arguments ⟨s.currentFrame, s.store, s.record⟩).size
    rw [currentFrame_of_frames hframes] at hsame hstore ⊢
    refine ⟨hstore.symm ▸ hsize, { f with result, returned } :: above, ?_, .answered (.command h hf)⟩
    simp only [performBuiltin, State.replaceFrame, hframes, List.cons_append, hsame]
  · rename_i g _
    split
    · exact ⟨hsize, f :: above, hframes, .answered hstanding⟩
    · obtain ⟨hscope, hsame, hlt, _⟩ := enterFunction_scope g s.currentFrame arguments s
      refine ⟨Nat.le_trans hsize (Nat.le_of_lt hlt), f :: above, hsame.trans hframes, .execute (.call hstanding) ?_⟩
      rw [hscope, currentFrame_of_frames hframes]
      exact hf.child hsize
  · rename_i key _
    exact ⟨hsize, f :: above, hframes, .act hstanding (hhost key _)⟩

theorem act_stands {s : State κ ω} {action : Action ω} (h : Standing size scope .answer ws above)
    (ha : action.StaysOutside) (hframes : s.frames = above ++ outer) (bound : Nat) (arguments : List String) :
    let r := act cfg bound arguments s action
    r.2.2.frames = above ++ outer ∧ Stands size scope r.1 (r.2.1 ++ ws) above := by
  cases ha with
  | finish | fail => exact ⟨hframes, .answered h⟩
  | update change hnext => exact ⟨hframes, .act h hnext⟩
  | lookup name hnext => exact ⟨hframes, .act h (hnext _)⟩
  | define name parameters body hnext =>
    exact ⟨(s.keeps_defineText cfg name parameters body).frames.trans hframes, .act h (hnext _)⟩

theorem startEvaluation_stands {p : Program} {frame : Frame} (h : Standing size scope .evaluation ws above)
    (hf : Belongs size scope above frame.scope) {s : State κ ω} (hframes : s.frames = above ++ outer)
    (onlyResolve : Bool) :
    let r := startEvaluation cfg p frame onlyResolve s
    ∃ above, r.2.frames = above ++ outer ∧ Stands size scope r.1 ws above := by
  simp only [startEvaluation]
  split
  · exact ⟨above, hframes, .evaluated h hf⟩
  · split
    · exact ⟨above, hframes, .evaluated h hf⟩
    · exact ⟨frame :: above, congrArg (frame :: ·) hframes, .goOn h hf⟩

theorem goOn_stands {e : Evaluation} {f : Frame} (h : Standing size scope .evaluation ws above)
    (hf : Belongs size scope above f.scope) {s : State κ ω} (hframes : s.frames = f :: above ++ outer) :
    let r := goOn cfg host e s
    ∃ above, r.2.2.frames = above ++ outer ∧ Stands size scope r.1 (r.2.1 ++ ws) above := by
  rcases goOn_cases cfg host e s with ⟨_, _, _, _, _, _, hgo⟩ | ⟨stage, t, hgo, hsettles⟩
  · rw [hgo]
    exact ⟨f :: above, hframes, .invoke (.command h hf)⟩
  · rw [hgo]
    exact Stands.settle h hf hframes hsettles

theorem resume_stands {r : Report} {w : Waiting ω} {s t : State κ ω} {stage : Stage ω}
    (h : Stands size scope (.reporting r) (w :: ws) above) (hframes : s.frames = above ++ outer)
    (hr : Running.resume cfg host s w r = some (stage, t)) :
    ∃ above, t.frames = above ++ outer ∧ Stands size scope stage ws above := by
  cases h with
  | answered h =>
    cases h with
    | command h hf => exact Stands.settle h hf hframes (resume_command hr)
  | evaluated h hf =>
    rename_i result frame
    cases h with
    | programs h =>
      cases result with
      | ok results =>
        cases hr
        exact ⟨above, hframes, .execute h hf⟩
      | error failure =>
        cases hr
        exact ⟨above, hframes, .executed h⟩
    | block h =>
      match result with
      | .ok [] =>
        cases hr
        exact ⟨above, hframes, .executed h⟩
      | .ok (name :: parameters) =>
        cases hr
        exact ⟨above, hframes, .execute h hf⟩
      | .error failure =>
        cases hr
        exact ⟨above, hframes, .executed h⟩
  | executed h =>
    cases h with
    | call h =>
      cases hr
      exact ⟨above, hframes, .answered h⟩

/-- Frames and what waits for them stay in step. -/
theorem IsFramed.next (hhost : host.StaysOutside) {m m' : Moment κ ω} (hm : IsFramed size scope outer m)
    (h : m.next? cfg host = some m') : IsFramed size scope outer m' := by
  have hchanges := next?_changes h
  obtain ⟨stage, waiting, s⟩ := m
  obtain ⟨hsize, above, hframes, hstands⟩ := hm
  have invoked (bound : Nat) (name : String) (arguments : List String)
      (hs : Standing size scope .answer waiting above) :
      let r := startInvocation cfg host bound name arguments s
      IsFramed size scope outer ⟨r.1, r.2.1 ++ waiting, r.2.2⟩ := by
    cases hs with
    | command hs hf => exact startInvocation_isFramed hhost hs hf hframes hsize bound name arguments
  -- an invocation may enter a function; every other step leaves the store as it is
  rcases hchanges.store_or_invoke with heq | ⟨bound, name, arguments, hstage⟩
  · refine ⟨heq.symm ▸ hsize, ?_⟩
    cases stage with
    | reporting report =>
      cases waiting with
      | nil => cases h
      | cons w ws =>
        obtain ⟨_, hr, rfl⟩ := Option.map_eq_some_iff.1 h
        exact resume_stands hstands hframes hr
    | doing job =>
      obtain rfl := Option.some.inj h
      cases hstands with
      | execute hs hf => exact ⟨above, hframes, startProgram_stands _ _ hs hf⟩
      | evaluate hs hf => exact startEvaluation_stands hs hf hframes _
      | goOn hs hf => exact goOn_stands hs hf hframes
      | act hs ha => exact ⟨above, act_stands hs ha hframes _ _⟩
      | invoke hs => exact (invoked _ _ _ hs).stands
  · obtain rfl : stage = _ := hstage
    obtain rfl := Option.some.inj h
    cases hstands with
    | invoke hs => exact invoked bound name arguments hs

/-! ### Variables further up -/

/-- A moment in which a built-in command is told to write variables of the parent, and the frame that it is given is one
of this scope, right on top of these frames. -/
def Moment.WritesParentOf (scope : Scope) (outer : List Frame) (m : Moment κ ω) : Prop :=
  ∃ bound name arguments b f, m.stage = .doing (.invoke bound name arguments) ∧ m.state.frames = f :: outer ∧
    f.scope = scope ∧ m.state.callee name arguments.length = .ok (.builtin b) ∧ b.WritesParent arguments

/-- A command that is given a frame on top of others reaches nothing that was there before, save for variables of the
outermost scope; one that is given the outermost frame may reach its parent's. -/
theorem Belongs.not_reaches {b : Builtin} {arguments : List String} {f : Frame} {i : Nat}
    (hf : Belongs size scope above f.scope) (hi : i < size) (hown : i ≠ scope.own)
    (hr : b.Reaches arguments f.scope i) :
    above = [] ∧ f.scope = scope ∧ b.WritesParent arguments ∧
      ∃ parent, scope.parent = some parent ∧ i = parent.own := by
  cases above with
  | nil =>
    have hscope : f.scope = scope := hf
    rw [hscope] at hr
    rcases hr with rfl | ⟨hw, hparent⟩
    · exact absurd rfl hown
    · exact ⟨rfl, hscope, hw, hparent⟩
  | cons g above =>
    -- the scope of a function: it is new, and its parent is new as well or the outermost one
    obtain ⟨hnew, parent, hparent, hle⟩ := hf
    rcases hr with rfl | ⟨_, parent', hparent', rfl⟩
    · omega
    · rw [hparent] at hparent'
      obtain rfl := Option.some.inj hparent'
      omega

/-- A step changes no variables that were there before, save for those of the scope itself and, when a command is told
to in that very frame, those of its parent. -/
theorem IsFramed.maps {m m' : Moment κ ω} (hm : IsFramed size scope outer m) (h : m.next? cfg host = some m') {i : Nat}
    (hi : i < size) (hown : i ≠ scope.own) :
    m'.state.store.maps[i]? = m.state.store.maps[i]? ∨
      m.WritesParentOf scope outer ∧ ∃ parent, scope.parent = some parent ∧ i = parent.own := by
  rcases (next?_changes h).store_or_invoke with heq | ⟨bound, name, arguments, hstage⟩
  · exact .inl (congrArg (fun st : Store => st.maps[i]?) heq)
  obtain ⟨stage, waiting, s⟩ := m
  obtain ⟨hsize, above, hframes, hstands⟩ := hm
  obtain rfl : stage = _ := hstage
  obtain rfl := Option.some.inj h
  cases hstands with
  | invoke hs =>
    cases hs with
    | command hs hf =>
      rename_i e ws f above
      have hcurrent : s.currentFrame = f := currentFrame_of_frames hframes
      rcases hcallee : s.callee name arguments.length with failure | b | g | key
      · exact .inl rfl
      · by_cases hr : b.Reaches arguments f.scope i
        · obtain ⟨rfl, hscope, hw, hparent⟩ := hf.not_reaches hi hown hr
          exact .inr ⟨⟨bound, name, arguments, b, f, rfl, hframes, hscope, hcallee, hw⟩, hparent⟩
        · rw [← hcurrent] at hr
          have hwrites := b.perform_writesOnly cfg.processEnvironment arguments ⟨s.currentFrame, s.store, s.record⟩
          exact .inl (hwrites.maps i hr)
      · refine .inl ?_
        by_cases hfew : arguments.length < g.parameters.length
        · simp only [if_pos hfew]
        · simp only [if_neg hfew]
          exact (enterFunction_scope g s.currentFrame arguments s).2.2.2 i (Nat.lt_of_lt_of_le hi hsize)
      · exact .inl rfl

theorem IsFramed.leads (hhost : host.StaysOutside) {m m' : Moment κ ω} (hm : IsFramed size scope outer m)
    (h : Leads cfg host m m') : IsFramed size scope outer m' := by
  induction h with
  | refl => exact hm
  | tail _ hstep ih => exact ih.next hhost hstep

theorem IsFramed.maps_leads (hhost : host.StaysOutside) {m m' : Moment κ ω} (hm : IsFramed size scope outer m)
    (h : Leads cfg host m m') {i : Nat} (hi : i < size) (hown : i ≠ scope.own)
    (hnone : ∀ m₁, Leads cfg host m m₁ → m₁.WritesParentOf scope outer →
      ∀ parent, scope.parent = some parent → i ≠ parent.own) :
    m'.state.store.maps[i]? = m.state.store.maps[i]? := by
  induction h with
  | refl => rfl
  | tail hlead hstep ih =>
    rcases (hm.leads hhost hlead).maps hstep hi hown with heq | ⟨hw, parent, hparent, rfl⟩
    · exact heq.trans ih
    · exact absurd rfl (hnone _ hlead hw parent hparent)

theorem isFramed_execute (ps : List Program) (frame : Frame) (s : State κ ω) :
    IsFramed s.store.maps.size frame.scope s.frames (⟨.doing (.execute [] ps frame), [], s⟩ : Moment κ ω) :=
  ⟨Nat.le_refl _, [], rfl, .execute .nothing rfl⟩

/-- Programs that are executed in a frame, in one go. -/
theorem execute_maps (hhost : host.StaysOutside) (ps : List Program) (frame : Frame) (s : State κ ω) {i : Nat}
    (hi : i < s.store.maps.size) (hown : i ≠ frame.scope.own)
    (hnone : ∀ m, Leads cfg host ⟨.doing (.execute [] ps frame), [], s⟩ m →
      m.WritesParentOf frame.scope s.frames → ∀ parent, frame.scope.parent = some parent → i ≠ parent.own) :
    (Session.execute (evaluatorAt cfg host s.depth) ps frame s).2.2.store.maps[i]? = s.store.maps[i]? := by
  have hends := ends_execute (evaluatorAt_isKeeping cfg host s.depth) (carries_evaluatorAt s.depth) [] ps frame s rfl
  exact (isFramed_execute ps frame s).maps_leads hhost hends hi hown hnone

/-- Where no host command runs scripts of its own, programs that are executed in a frame, however they end, leave all
variables as they were but those of the frame's scope and those of its parent. The parent's change only when a built-in
command is told to write them while that very frame is the current one. So a call whose body never does this leaves
alone whatever variables there were, the caller's as well. -/
theorem execute_writes_no_further (cfg : Config) (host : Host κ ω) (hhost : host.StaysOutside) (frame : Frame)
    (s : State κ ω) (hscope : frame.scope.IsNested s.store.maps.size) :
    let ev := evaluatorAt cfg host s.depth
    (∀ ps, let first : Moment κ ω := ⟨.doing (.execute [] ps frame), [], s⟩
      let t := (Session.execute ev ps frame s).2.2
      (∀ other : Scope, other.own < s.store.maps.size → other.own ≠ frame.scope.own →
        (∀ parent, frame.scope.parent = some parent → other.own ≠ parent.own) →
        t.store.ownBindings other = s.store.ownBindings other) ∧
      ∀ parent, frame.scope.parent = some parent →
        (∀ m m', Leads cfg host first m → m.next? cfg host = some m' →
          m'.state.store.ownBindings parent ≠ m.state.store.ownBindings parent →
          m.WritesParentOf frame.scope s.frames) ∧
        ((∀ m, Leads cfg host first m → ¬m.WritesParentOf frame.scope s.frames) →
          t.store.ownBindings parent = s.store.ownBindings parent)) ∧
    ∀ (f : ScriptFunction) (arguments : List String), let entered := enterFunction f frame arguments s
      (∀ m, Leads cfg host ⟨.doing (.execute [] f.body entered.1), [], entered.2⟩ m →
        ¬m.WritesParentOf entered.1.scope s.frames) →
      ∀ other : Scope, other.own < s.store.maps.size →
        (callFunction ev f frame arguments s).2.store.ownBindings other = s.store.ownBindings other := by
  have of_maps {st st' : Store} {other : Scope} (h : st'.maps[other.own]? = st.maps[other.own]?) :
      st'.ownBindings other = st.ownBindings other := congrArg (Option.getD · []) h
  refine ⟨fun ps => ⟨fun other hother hown hparent => ?_, fun parent hparent => ?_⟩,
    fun f arguments hnone other hother => ?_⟩
  · exact of_maps (execute_maps hhost ps frame s hother hown fun _ _ _ => hparent)
  · have hne : parent.own ≠ frame.scope.own := Nat.ne_of_lt (hscope.parent_lt hparent)
    have hlt : parent.own < s.store.maps.size := Nat.lt_trans (hscope.parent_lt hparent) hscope.own_lt
    refine ⟨fun m m' hlead hstep hchanged => ?_, fun hnone => ?_⟩
    · rcases ((isFramed_execute ps frame s).leads hhost hlead).maps hstep hlt hne with heq | ⟨hw, _⟩
      · exact absurd (of_maps heq) hchanged
      · exact hw
    · exact of_maps (execute_maps hhost ps frame s hlt hne fun m hlead hw => absurd hw (hnone m hlead))
  · obtain ⟨hown, hframes, hlt, hmaps⟩ := enterFunction_scope f frame arguments s
    unfold callFunction
    split
    · rfl
    · refine of_maps (.trans ?_ (hmaps other.own hother))
      refine execute_maps hhost f.body (enterFunction f frame arguments s).1 (enterFunction f frame arguments s).2
        (Nat.lt_trans hother hlt) ?_ ?_
      · rw [hown]
        exact Nat.ne_of_lt hother
      · intro m hlead hw
        exact absurd hw (hnone m hlead)

/-- In a scope inside a scope inside the one at top level, `set(x 2 PARENT_SCOPE)` leaves the outermost `x` alone. -/
theorem execute_writes_no_further_inside :
    let s : State Empty Unit := State.initial [("x", "1")] [] [] ()
    let middle := s.store.child s.top
    let inner := middle.2.child middle.1
    let p : Program := ⟨"set", [.literal "x", .unquoted 1, .literal "2", .unquoted 1, .literal "PARENT_SCOPE",
      .unquoted 1, .call "set" 3], none, none⟩
    let host : Host Empty Unit := fun key _ => key.elim
    host.StaysOutside ∧ inner.1.IsNested inner.2.maps.size ∧
      (Session.execute (evaluatorAt {} host 0) [p] { scope := inner.1 }
        { s with store := inner.2 }).2.2.store.ownBindings s.top = [("x", "1")] := by
  intro s middle inner p host
  have hhost : host.StaysOutside := fun key _ => key.elim
  have htop : s.top.IsNested s.store.maps.size := Store.isNested_root {} [("x", "1")] []
  have hinner : inner.1.IsNested inner.2.maps.size := Store.isNested_child (Store.isNested_child htop)
  refine ⟨hhost, hinner, ?_⟩
  have h := execute_writes_no_further {} host hhost { scope := inner.1 } { s with store := inner.2 } hinner
  refine ((h.1 [p]).1 s.top (by decide) (by decide) ?_).trans rfl
  rintro parent ⟨⟩
  decide

end Running

end CommandScript
