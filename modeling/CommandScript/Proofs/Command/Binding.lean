import CommandScript.Session.Evaluate

/-! Which calls a function accepts. Its arguments are given one by one, none by name, and are bound to the parameters
from left to right. What the library knows about a function are two numbers; they say how many arguments are accepted,
because positions that may be left out stand behind those that may not, and the rest of the positions behind all of
them. They do not tell of a parameter that has to be given by name. -/

namespace CommandScript

open Text Code Command Machine

namespace Command

variable {α : Type}

/-! ### Binding -/

/-- What a parameter takes of the arguments that are left, and what it leaves: a position takes the next one, the rest
of the positions takes all, and what is given by name takes none. What takes none for want of one needs a default. -/
def Parameter.take? (p : Parameter) (arguments : List α) : Option (List α × List α) :=
  match p.kind, arguments with
  | .positionOnly, argument :: rest | .positionOrName, argument :: rest => some ([argument], rest)
  | .positions, arguments => some (arguments, [])
  | .names, arguments => some ([], arguments)
  | .positionOnly, [] | .positionOrName, [] | .nameOnly, arguments =>
    if p.hasDefault then some ([], arguments) else none

/-- Binds arguments to parameters from left to right. No argument may be left over. -/
def Signature.bind? : Signature → List α → Option (List (Parameter × List α))
  | [], arguments => if arguments.isEmpty then some [] else none
  | p :: s, arguments =>
    match p.take? arguments with
    | some (taken, rest) => (bind? s rest).map ((p, taken) :: ·)
    | none => none

/-- Whether a function can be defined with such parameters. -/
structure Signature.IsDefinable (s : Signature) : Prop where
  check : s.check = .ok s
  /-- No position without a default stands behind one that has one. -/
  defaults : s.Pairwise fun a b => a.hasDefault → a.kind.isPosition → b.kind.isPosition → b.hasDefault
  /-- There is no second rest. -/
  rest : s.Pairwise fun a b => a.kind.isRest → a.kind ≠ b.kind

namespace Signature

/-- The positions that have to be given. -/
def required (s : Signature) : Signature := s.positions.filter fun p => !p.hasDefault

/-- Whether any number of further positions may be given. -/
def isOpen (s : Signature) : Bool := s.any fun p => p.kind = .positions

/-- Whether nothing has to be given by name. -/
def NeedsNoName (s : Signature) : Prop := ∀ p ∈ s, p.kind = .nameOnly → p.hasDefault

instance (s : Signature) : Decidable s.NeedsNoName :=
  inferInstanceAs (Decidable (∀ p ∈ s, p.kind = .nameOnly → p.hasDefault))

/-- The parameters stand in an order in which the two numbers tell what can be given by position. -/
structure IsOrdered (s : Signature) : Prop where
  kinds : s.Pairwise fun a b => a.kind.rank ≤ b.kind.rank
  defaults : s.Pairwise fun a b => a.hasDefault → a.kind.isPosition → b.kind.isPosition → b.hasDefault

theorem IsDefinable.isOrdered {s : Signature} (h : s.IsDefinable) : s.IsOrdered := by
  refine ⟨?_, h.defaults⟩
  have hcheck := h.check
  unfold Signature.check at hcheck
  cases hmap : s.mapM Parameter.check with
  | error => simp [hmap, bind, Except.bind] at hcheck
  | ok s' =>
    simp only [hmap, bind, Except.bind] at hcheck
    split at hcheck
    · rename_i hplaced
      obtain rfl := Except.ok.inj hcheck
      exact hplaced.imp fun h => h.2.1
    · cases hcheck

section Parts

variable {p : Parameter} {s : Signature}

theorem positions_cons_of_isPosition (h : p.kind.isPosition) : positions (p :: s) = p :: positions s :=
  List.filter_cons_of_pos h

theorem positions_cons_of_not_isPosition (h : p.kind.isPosition = false) : positions (p :: s) = positions s :=
  List.filter_cons_of_neg (by simp [h])

theorem needsNoName_cons (h : p.kind ≠ .nameOnly) : NeedsNoName (p :: s) ↔ NeedsNoName s := by
  simp [NeedsNoName, h]

namespace IsOrdered

theorem tail (h : IsOrdered (p :: s)) : s.IsOrdered :=
  ⟨(List.pairwise_cons.1 h.kinds).2, (List.pairwise_cons.1 h.defaults).2⟩

/-- Behind a position that may be left out all may be left out. -/
theorem required_nil (h : IsOrdered (p :: s)) (hp : p.kind.isPosition) (hd : p.hasDefault) : s.required = [] := by
  refine List.filter_eq_nil_iff.2 fun q hq => ?_
  obtain ⟨hmem, hkind⟩ := List.mem_filter.1 hq
  simp [(List.pairwise_cons.1 h.defaults).1 q hmem hd hp hkind]

/-- Behind the rest of the positions there are none. -/
theorem positions_nil (h : IsOrdered (p :: s)) (hp : p.kind = .positions) : s.positions = [] := by
  refine List.filter_eq_nil_iff.2 fun q hq hkind => ?_
  have hrank := (List.pairwise_cons.1 h.kinds).1 q hq
  rw [hp] at hrank
  cases hq : q.kind <;> simp [hq, ParameterKind.rank, ParameterKind.isPosition] at hrank hkind

end IsOrdered

end Parts

/-! ### Two numbers -/

/-- Whether the two numbers admit so many arguments. -/
def Admits (s : Signature) (given : Nat) : Prop :=
  s.required.length ≤ given ∧ (s.isOpen ∨ given ≤ s.positions.length)

section Admits

variable {p : Parameter} {s : Signature}

theorem required_cons_of_isPosition (hp : p.kind.isPosition) :
    required (p :: s) = if p.hasDefault then s.required else p :: s.required := by
  unfold required
  rw [positions_cons_of_isPosition hp, List.filter_cons]
  cases p.hasDefault <;> rfl

theorem isOpen_cons_of_ne (hp : p.kind ≠ .positions) : isOpen (p :: s) = s.isOpen := by
  simp [isOpen, hp]

/-- A position takes one argument, if there is one. -/
theorem admits_position_succ (h : IsOrdered (p :: s)) (hp : p.kind.isPosition) (given : Nat) :
    Admits (p :: s) (given + 1) ↔ Admits s given := by
  have hopen : isOpen (p :: s) = s.isOpen := isOpen_cons_of_ne fun hkind => by rw [hkind] at hp; cases hp
  unfold Admits
  rw [hopen, positions_cons_of_isPosition hp, required_cons_of_isPosition hp, List.length_cons,
    Nat.add_le_add_iff_right]
  by_cases hd : p.hasDefault
  · simp [hd, h.required_nil hp hd]
  · simp [hd]

theorem admits_position_zero (h : IsOrdered (p :: s)) (hp : p.kind.isPosition) :
    Admits (p :: s) 0 ↔ p.hasDefault ∧ Admits s 0 := by
  unfold Admits
  rw [required_cons_of_isPosition hp]
  by_cases hd : p.hasDefault
  · simp [hd, h.required_nil hp hd]
  · simp [hd]

theorem admits_positions (h : IsOrdered (p :: s)) (hp : p.kind = .positions) (given : Nat) :
    Admits (p :: s) given ↔ Admits s 0 := by
  have hpositions : positions (p :: s) = [] :=
    (positions_cons_of_not_isPosition (by rw [hp]; rfl)).trans (h.positions_nil hp)
  simp [Admits, required, hpositions, h.positions_nil hp, isOpen, hp]

/-- What is given by name makes no difference. -/
theorem admits_name (hp : p.kind.isPosition = false) (hp' : p.kind ≠ .positions) (given : Nat) :
    Admits (p :: s) given ↔ Admits s given := by
  unfold Admits required
  rw [positions_cons_of_not_isPosition hp, isOpen_cons_of_ne hp']

end Admits

/-- Arguments can be bound if the two numbers admit so many, and nothing has to be given by name. -/
theorem bind?_isSome_iff {s : Signature} (h : s.IsOrdered) (arguments : List α) :
    (s.bind? arguments).isSome ↔ s.Admits arguments.length ∧ s.NeedsNoName := by
  induction s generalizing arguments with
  | nil => cases arguments <;> simp [bind?, Admits, NeedsNoName, required, positions, isOpen]
  | cons p s ih =>
    replace ih := @ih h.tail
    have hnil := ih []
    rw [List.length_nil] at hnil
    rw [bind?]
    cases hkind : p.kind with
    | positionOnly | positionOrName =>
      have hp : p.kind.isPosition := by rw [hkind]; rfl
      rw [needsNoName_cons (by rw [hkind]; nofun)]
      cases arguments with
      | cons argument rest =>
        rw [List.length_cons, admits_position_succ h hp, ← ih]
        simp [Parameter.take?, hkind]
      | nil =>
        rw [List.length_nil, admits_position_zero h hp, and_assoc, ← hnil]
        cases hd : p.hasDefault <;> simp [Parameter.take?, hkind, hd]
    | positions =>
      rw [needsNoName_cons (by rw [hkind]; nofun), admits_positions h hkind, ← hnil]
      simp [Parameter.take?, hkind]
    | nameOnly =>
      have hp : p.kind.isPosition = false := by rw [hkind]; rfl
      rw [admits_name hp (by rw [hkind]; nofun)]
      cases hd : p.hasDefault <;> simp [Parameter.take?, hkind, hd, ih, NeedsNoName]
    | names =>
      have hp : p.kind.isPosition = false := by rw [hkind]; rfl
      rw [needsNoName_cons (by rw [hkind]; nofun), admits_name hp (by rw [hkind]; nofun), ← ih]
      simp [Parameter.take?, hkind]

theorem take?_append {p : Parameter} {arguments taken rest : List α} (h : p.take? arguments = some (taken, rest)) :
    taken ++ rest = arguments := by
  unfold Parameter.take? at h
  split at h
  case h_5 | h_6 | h_7 =>
    obtain ⟨-, heq⟩ := Option.ite_none_right_eq_some.1 h
    cases heq
    rfl
  all_goals
    cases h
    simp

/-- A binding gives every parameter its part of the arguments, and leaves none over. -/
theorem bind?_distributes {s : Signature} {arguments : List α} {bound : List (Parameter × List α)}
    (h : s.bind? arguments = some bound) : bound.map Prod.fst = s ∧ bound.flatMap Prod.snd = arguments := by
  induction s generalizing arguments bound with
  | nil =>
    obtain ⟨hnil, heq⟩ := Option.ite_none_right_eq_some.1 h
    cases heq
    exact ⟨rfl, (List.isEmpty_iff.1 hnil).symm⟩
  | cons p s ih =>
    unfold bind? at h
    split at h
    · rename_i taken rest htake
      obtain ⟨bound, hbound, rfl⟩ := Option.map_eq_some_iff.1 h
      obtain ⟨hparameters, harguments⟩ := ih hbound
      refine ⟨by rw [List.map_cons, hparameters], ?_⟩
      rw [List.flatMap_cons, harguments]
      exact take?_append htake
    · cases h

/-- What is known about a function that is given its arguments one by one are those two numbers. -/
theorem admits_summary {s : Signature} (hframe : s.takesFrame = false) (shown documentation : String)
    {β : Type} (name : String) (body : β) (given : Nat) :
    (⟨name, some (s.summary shown documentation), body⟩ : Entry β).admits given ↔ s.Admits given := by
  have hopen : (s.any fun p => p.kind = .positions) = s.isOpen := rfl
  have hrequired : (s.positions.filter fun p => !p.hasDefault).length = s.required.length := rfl
  simp only [Entry.admits, summary, hframe, Bool.false_eq_true, if_false, Bool.false_or, Summary.arguments,
    ArgumentRange.admits, hopen, hrequired, Admits]
  cases s.isOpen <;> simp

end Signature

end Command

/-! ### Calls -/

namespace Session

open Command.Signature (bind?_isSome_iff bind?_distributes admits_summary)

variable {κ ω : Type}

/-- A command is carried out if its two numbers admit so many arguments, and else refuses the invocation. -/
theorem callee_of_find? {t : State κ ω} {called name shown documentation : String} {s : Signature} {key : κ}
    (hframe : s.takesFrame = false)
    (hfind : t.library.find? called = some ⟨name, some (s.summary shown documentation), .host key⟩) (given : Nat) :
    s.Admits given ∧ t.callee called given = .ok (.host key) ∨
      ¬s.Admits given ∧ ∃ f, t.callee called given = .error f ∧ f.cause.kind = "SpliceArityError" := by
  let entry : Entry (Implementation κ) := ⟨name, some (s.summary shown documentation), .host key⟩
  have hadmits : entry.admits given ↔ s.Admits given := admits_summary hframe ..
  simp only [State.callee, Library.get, hfind, Entry.checkArity]
  by_cases haccepts : entry.admits given
  · exact .inl ⟨hadmits.1 haccepts, by rw [if_pos haccepts]⟩
  · exact .inr ⟨fun h => haccepts (hadmits.2 h), _, by rw [if_neg haccepts], rfl⟩

/-- A host command that is given its arguments one by one refuses an invocation for their number, or is carried out. If
nothing has to be given by name, it is carried out just if the arguments can be bound to the parameters of its function,
for every signature that a function can be defined with and every number of arguments. If something has to be, they
never can be bound, though by their number they may be accepted. -/
theorem callee_accepts_bindable (s : Signature) (hs : s.IsDefinable) (hframe : s.takesFrame = false)
    (name fallback documentation : String) (key : κ) (u : State κ ω) :
    ∃ entry, (u.register name fallback s documentation key).library.commands.get? (lowerCase name) = some entry ∧
      ∀ (t : State κ ω) (called : String) (arguments : List String), t.library.find? called = some entry →
        let callee := t.callee called arguments.length
        (callee = .ok (.host key) ∨ ∃ f, callee = .error f ∧ f.cause.kind = "SpliceArityError") ∧
        (s.NeedsNoName → (callee = .ok (.host key) ↔ (s.bind? arguments).isSome)) ∧
        (¬s.NeedsNoName → s.bind? arguments = none) ∧
        ∀ bound, s.bind? arguments = some bound →
          bound.map Prod.fst = s ∧ bound.flatMap Prod.snd = arguments := by
  refine ⟨_, (Bindings.get?_insert ..).trans (if_pos rfl), fun t called arguments hfind => ?_⟩
  intro callee
  have hbind := bind?_isSome_iff hs.isOrdered arguments
  have hnames (h : ¬s.NeedsNoName) : s.bind? arguments = none :=
    Option.not_isSome_iff_eq_none.1 fun hbound => h (hbind.1 hbound).2
  obtain ⟨hadmits, haccepts⟩ | ⟨hadmits, f, hrefuses, hkind⟩ := callee_of_find? hframe hfind arguments.length
  · exact ⟨.inl haccepts, fun h => ⟨fun _ => hbind.2 ⟨hadmits, h⟩, fun _ => haccepts⟩, hnames,
      fun _ => bind?_distributes⟩
  · refine ⟨.inr ⟨f, hrefuses, hkind⟩, fun _ => ⟨fun h => ?_, fun h => ?_⟩, hnames, fun _ => bind?_distributes⟩
    · rw [show callee = .error f from hrefuses] at h
      cases h
    · exact absurd (hbind.1 h).1 hadmits

/-- A function with parameters of most kinds is carried out for one argument and for two. -/
theorem callee_accepts_bindable_mixed :
    let s : Signature :=
      [⟨"a", .positionOnly, false⟩, ⟨"b", .positionOrName, true⟩, ⟨"c", .nameOnly, true⟩, ⟨"d", .names, false⟩]
    let t : State Unit Unit := (State.initial [] [] [] ()).register "Pair" "pair" s "" ()
    s.IsDefinable ∧ s.takesFrame = false ∧ s.NeedsNoName ∧ t.callee "PAIR" 1 = .ok (.host ()) ∧
      s.bind? ["x"] = some [(⟨"a", .positionOnly, false⟩, ["x"]), (⟨"b", .positionOrName, true⟩, []),
        (⟨"c", .nameOnly, true⟩, []), (⟨"d", .names, false⟩, [])] ∧
      s.bind? ["x", "y", "z"] = none ∧ ∃ f, t.callee "PAIR" 3 = .error f ∧ f.cause.kind = "SpliceArityError" := by
  intro s t
  have hs : s.IsDefinable := ⟨by decide +kernel, by decide, by decide⟩
  have hnames : s.NeedsNoName := by decide
  obtain ⟨entry, hget, hcalls⟩ :=
    callee_accepts_bindable s hs rfl "Pair" "pair" "" () (State.initial [] [] [] () : State Unit Unit)
  have hkey : t.library.key "PAIR" = lowerCase "Pair" := by decide +kernel
  have hfind : t.library.find? "PAIR" = some entry := (congrArg t.library.commands.get? hkey).trans hget
  obtain ⟨-, hone, -⟩ := hcalls t "PAIR" ["x"] hfind
  obtain ⟨hthree, hbinds, -⟩ := hcalls t "PAIR" ["x", "y", "z"] hfind
  refine ⟨hs, rfl, hnames, (hone hnames).2 rfl, rfl, rfl, hthree.resolve_left fun haccepts => ?_⟩
  cases (hbinds hnames).1 haccepts

/-- A function that has to be given something by name is carried out though it cannot be called. -/
theorem callee_accepts_unbindable :
    let s : Signature := [⟨"j", .nameOnly, false⟩]
    let t : State Unit Unit := (State.initial [] [] [] ()).register "z" "z" s "" ()
    s.IsDefinable ∧ s.takesFrame = false ∧ t.callee "z" 0 = .ok (.host ()) ∧ s.bind? ([] : List String) = none := by
  intro s t
  refine ⟨⟨by decide +kernel, by decide, by decide⟩, rfl, ?_, rfl⟩
  have hkey : t.library.key "z" = lowerCase "z" := by decide +kernel
  have hfind := (congrArg t.library.commands.get? hkey).trans ((Bindings.get?_insert ..).trans (if_pos rfl))
  obtain ⟨-, haccepts⟩ | ⟨hadmits, -⟩ := callee_of_find? rfl hfind 0
  · exact haccepts
  · exact absurd ⟨by decide, .inr (by decide)⟩ hadmits

end Session
end CommandScript
