import CommandScript.Proofs.Grammar.Concatenation
import CommandScript.Proofs.Scanning.Calls
import CommandScript.Proofs.Scanning.Extraction

/-! How deep a text may nest. Each list of arguments, quoted argument and reference is scanned by a scanner that the one
around it calls, so the stack has to have room for all that are open at once. Where it has, scanner and parser agree on
everything inside parentheses, and reading a script fails where its outline does. Where it has not, no result comes of
the text, however well formed it is. -/

namespace CommandScript

open Text Syntax Scanning Grammar

/-! ### Room for a scan -/

/-- A scan from one state goes through another. -/
inductive Syntax.ScanState.GoesThrough : ScanState → ScanState → Prop where
  | refl (s : ScanState) : GoesThrough s s
  | moved {s next t : ScanState} {ts : List Token} (hs : s.step = .moved ts next) (h : GoesThrough next t) :
    GoesThrough s t

/-- A scan for which there was room. -/
def Syntax.Scan.bounded (read : Scan) : BoundedScan where
  tokens := read.tokens
  ending := match read.fault with
    | none => .finished
    | some (fault, p) => .failed fault p

namespace Scanning

variable {fits : ScanState → Bool}

theorem eq_of_goesThrough {s t : ScanState} (h : s.GoesThrough t) (hs : ∀ ts next, s.step ≠ .moved ts next) :
    t = s := by
  cases h with
  | refl => rfl
  | moved hs' => exact absurd hs' (hs _ _)

theorem goesThrough_iff_of_moved {s next t : ScanState} {ts : List Token} (hs : s.step = .moved ts next) :
    s.GoesThrough t ↔ t = s ∨ next.GoesThrough t := by
  constructor
  · intro h
    cases h with
    | refl => exact .inl rfl
    | moved hs' h =>
      obtain ⟨-, rfl⟩ := ScanStep.moved.inj (hs.symm.trans hs')
      exact .inr h
  · rintro (rfl | h)
    · exact .refl t
    · exact .moved hs h

/-- The stack runs out in a scan that goes through a state it has no room for, and in no other. -/
theorem exhausted_iff (s : ScanState) :
    (s.scanWithin fits).ending = .exhausted ↔ ∃ t, s.GoesThrough t ∧ fits t = false := by
  have ended {s : ScanState} (hfits : fits s) (hs : ∀ ts next, s.step ≠ .moved ts next) :
      ¬ ∃ t, s.GoesThrough t ∧ fits t = false := by
    rintro ⟨t, hpass, ht⟩
    obtain rfl := eq_of_goesThrough hpass hs
    rw [hfits] at ht
    cases ht
  induction s using ScanState.scanWithin.induct fits with
  | case1 s hfits hs =>
    rw [ScanState.scanWithin_finished hfits hs]
    exact iff_of_false ScanEnd.noConfusion (ended hfits (by simp [hs]))
  | case2 s hfits fault p hs =>
    rw [ScanState.scanWithin_failed hfits hs]
    exact iff_of_false ScanEnd.noConfusion (ended hfits (by simp [hs]))
  | case3 s hfits ts next hs ih =>
    rw [ScanState.scanWithin_moved hfits hs]
    refine ih.trans (exists_congr fun t => and_congr_left fun ht => ?_)
    rw [goesThrough_iff_of_moved hs]
    refine (or_iff_right ?_).symm
    rintro rfl
    rw [hfits] at ht
    cases ht
  | case4 s hfits =>
    rw [Bool.not_eq_true] at hfits
    rw [ScanState.scanWithin_exhausted hfits]
    exact iff_of_true rfl ⟨s, .refl s, hfits⟩

theorem scanWithin_eq_scan {s : ScanState} (h : (s.scanWithin fits).ending ≠ .exhausted) :
    s.scanWithin fits = s.scan.bounded := by
  induction s using ScanState.scanWithin.induct fits with
  | case1 s hfits hs => rw [ScanState.scanWithin_finished hfits hs, ScanState.scan_finished hs]; rfl
  | case2 s hfits fault p hs => rw [ScanState.scanWithin_failed hfits hs, ScanState.scan_failed hs]; rfl
  | case3 s hfits ts next hs ih =>
    rw [ScanState.scanWithin_moved hfits hs] at h ⊢
    rw [ScanState.scan_moved hs, ih h]
    rfl
  | case4 s hfits =>
    rw [ScanState.scanWithin_exhausted (Bool.eq_false_iff.2 hfits)] at h
    exact absurd rfl h

theorem parseWithin_eq_parseText {text : List Char} (h : (scanWithin fits text).ending ≠ .exhausted)
    (file : Option String) : parseWithin fits text file = some (parseText text file) := by
  have hscan : scanWithin fits text = (scan text).bounded := scanWithin_eq_scan h
  unfold parseWithin parseText
  rw [hscan]
  simp only [Scan.bounded]
  cases Builder.initial.feedAll (scan text).tokens with
  | error refused => rfl
  | ok b =>
    rcases (scan text).fault with - | ⟨fault, p⟩
    · cases hopened : b.opened <;> simp only [hopened]
    · rfl

/-! ### Outlines -/

/-- Reading a text fails where its outline is stopped: by text outside all parentheses or by a name behind a name, and
there what could come next is what the outline says. Otherwise there is no result if the stack runs out, or it fails
with the fault that ended the scan, if any, or because the text ends in a name. So it succeeds if and only if the scan
does, no text stands outside and a parenthesis follows every name there. The stack runs out only where the scan passes a
state it has no room for, and if it does not, it makes no difference. -/
theorem parseWithin_outline (fits : ScanState → Bool) (text : List Char) (file : Option String) :
    (match Outline.between.run (scanWithin fits text).tokens, (scanWithin fits text).ending with
      | .error (o, t), _ => IsStray o t ∧
        parseWithin fits text file = some (.error ⟨.unexpected (some t.lexeme) o.expected, t.start.inFile file⟩)
      | .ok _, .exhausted => parseWithin fits text file = none
      | .ok _, .failed fault p => parseWithin fits text file = some (.error ⟨.scan fault, p.inFile file⟩)
      | .ok .named, .finished => parseWithin fits text file =
        some (.error ⟨.unexpected none [.leftParen], (endPosition (scanWithin fits text).tokens).inFile file⟩)
      | .ok _, .finished => ∃ invocations, parseWithin fits text file = some (.ok invocations)) ∧
    ((∃ invocations, parseWithin fits text file = some (.ok invocations)) ↔
      (scanWithin fits text).ending = .finished ∧ ∀ x ∈ topLevel 0 (scanWithin fits text).tokens, IsPlaced x) ∧
    ((scanWithin fits text).ending = .exhausted ↔ ∃ s, ScanState.GoesThrough ⟨⟨text, .start⟩, []⟩ s ∧ fits s = false) ∧
    ((scanWithin fits text).ending ≠ .exhausted →
      scanWithin fits text = (scan text).bounded ∧ parseWithin fits text file = some (parseText text file)) := by
  suffices h : _ ∧ _ from
    ⟨h.1, h.2, exhausted_iff _, fun h => ⟨scanWithin_eq_scan h, parseWithin_eq_parseText h file⟩⟩
  have refused {x : Option (Except Fault (List Invocation))} (hp : parseWithin fits text file = x)
      (hx : ∀ invocations, x ≠ some (.ok invocations)) :
      ¬ ∃ invocations, parseWithin fits text file = some (.ok invocations) := by
    rintro ⟨invocations, h⟩
    exact hx invocations (hp.symm.trans h)
  have hrun := run_scanWithin fits ⟨⟨text, .start⟩, []⟩ (b := Builder.initial) .between
  rcases hrun with ⟨b, o, hb, ho, hfin⟩ | ⟨o, t, hb, ho, hstray⟩
  · change Builder.initial.feedAll (scanWithin fits text).tokens = .ok b at hb
    change Outline.between.run (scanWithin fits text).tokens = .ok o at ho
    change (scanWithin fits text).ending = .finished → Ends b.opened o at hfin
    rw [ho]
    cases hend : (scanWithin fits text).ending with
    | exhausted =>
      have hp : parseWithin fits text file = none := by simp only [parseWithin, hb, hend]
      refine ⟨by cases o <;> exact hp, iff_of_false (refused hp nofun) (by simp)⟩
    | failed fault p =>
      have hp : parseWithin fits text file = some (.error ⟨.scan fault, p.inFile file⟩) := by
        simp only [parseWithin, hb, hend]
      refine ⟨by cases o <;> exact hp, iff_of_false (refused hp nofun) (by simp)⟩
    | finished =>
      rcases hfin hend with ⟨hos, rfl⟩ | ⟨⟨name, start, hos⟩, rfl⟩
      · have hp : parseWithin fits text file = some (.ok b.done.reverse) := by
          simp only [parseWithin, hb, hend, hos]
        exact ⟨⟨_, hp⟩, iff_of_true ⟨_, hp⟩ ⟨rfl, (isPlaced_of_run ho (by simp)).1⟩⟩
      · have hp : parseWithin fits text file =
            some (.error ⟨.unexpected none [.leftParen], (endPosition (scanWithin fits text).tokens).inFile file⟩) := by
          simp only [parseWithin, hb, hend, hos, Builder.expected]
        refine ⟨hp, iff_of_false (refused hp nofun) ?_⟩
        rintro ⟨-, h⟩
        exact (run_of_isPlaced (o := .between) h (by simp)).1 ho
  · change Builder.initial.feedAll (scanWithin fits text).tokens = .error (t, o.expected) at hb
    change Outline.between.run (scanWithin fits text).tokens = .error (o, t) at ho
    have hp : parseWithin fits text file =
        some (.error ⟨.unexpected (some t.lexeme) o.expected, t.start.inFile file⟩) := by
      simp only [parseWithin, hb]
    rw [ho]
    refine ⟨⟨hstray, hp⟩, iff_of_false (refused hp nofun) ?_⟩
    rintro ⟨-, h⟩
    exact (run_of_isPlaced (o := .between) h (by simp)).2 o t hstray ho

/-! ### Nested parentheses -/

/-- The stack runs out behind tokens that the builder has taken. -/
theorem Reads.exhausted {s s' : ScanState} {b b' : Builder} (h : Reads s b s' b') (hs : fits s' = false) :
    (s.scanWithin fits).ending = .exhausted ∧ ∃ b'', b.feedAll (s.scanWithin fits).tokens = .ok b'' := by
  induction h with
  | refl s b =>
    rw [ScanState.scanWithin_exhausted hs]
    exact ⟨rfl, b, rfl⟩
  | @step s next s' b b₁ b' ts hstep hb _ ih =>
    cases hfits : fits s with
    | false =>
      rw [ScanState.scanWithin_exhausted hfits]
      exact ⟨rfl, b, rfl⟩
    | true =>
      obtain ⟨hending, b'', htokens⟩ := ih hs
      rw [ScanState.scanWithin_moved hfits hstep]
      exact ⟨hending, b'', (feedAll_append hb _).trans htokens⟩

/-- The scanner in a call, behind a parenthesis for each of these groups, and the builder with these groups open. -/
abbrev insideGroups (opener : Position) (groups : List (Position × List Argument)) (rest : List Char) (p : Position) :
    ScanState := ⟨⟨rest, p⟩, groups.map (.arguments ·.1 none) ++ [.arguments opener none]⟩

abbrev grouping (name : String) (start : Position) (arguments : List Argument)
    (groups : List (Position × List Argument)) : Builder :=
  { opened := groups.map (fun g => .group g.1 g.2) ++ [.call name start arguments] }

section Groups

variable (name : String) (start opener : Position)

theorem scanners_insideGroups (groups : List (Position × List Argument)) (rest : List Char) (p : Position) :
    (insideGroups opener groups rest p).scanners = groups.length + 1 := by
  induction groups with
  | nil => rfl
  | cons g groups ih =>
    have hcons : (insideGroups opener (g :: groups) rest p).scanners =
        1 + (insideGroups opener groups rest p).scanners := rfl
    rw [hcons, ih, List.length_cons, Nat.add_comm]

theorem reads_groupOpened (arguments : List Argument) (groups : List (Position × List Argument)) (rest : List Char)
    (p : Position) : Reads (insideGroups opener groups ('(' :: rest) p) (grouping name start arguments groups)
      (insideGroups opener ((p, []) :: groups) rest (p.next '('))
      (grouping name start arguments ((p, []) :: groups)) := by
  have hparted {contexts : List Context} (hs : separates contexts) :
      Parted contexts ⟨'(' :: rest, p⟩ ⟨'(' :: rest, p⟩ := parted_of_separation hs .nil (by decide) p
  cases groups with
  | nil => exact .step (Lexes.group.step_eq (hparted rfl)) rfl (.refl _ _)
  | cons g groups => exact .step (Lexes.group.step_eq (hparted rfl)) rfl (.refl _ _)

theorem reads_groupClosed (arguments : List Argument) (g : Position × List Argument)
    (groups : List (Position × List Argument)) (rest : List Char) (p : Position) :
    ∃ arguments' groups', groups'.map Prod.fst = groups.map Prod.fst ∧
      Reads (insideGroups opener (g :: groups) (')' :: rest) p) (grouping name start arguments (g :: groups))
        (insideGroups opener groups' rest (p.next ')')) (grouping name start arguments' groups') := by
  have hparted {contexts : List Context} (hs : separates contexts) :
      Parted contexts ⟨')' :: rest, p⟩ ⟨')' :: rest, p⟩ := parted_of_separation hs .nil (by decide) p
  let group := Argument.group g.1 g.2.reverse p
  cases groups with
  | nil => exact ⟨group :: arguments, [], rfl, .step (Lexes.closed.step_eq (hparted rfl)) rfl (.refl _ _)⟩
  | cons outer groups =>
    exact ⟨arguments, (outer.1, group :: outer.2) :: groups, rfl,
      .step (Lexes.closed.step_eq (hparted rfl)) rfl (.refl _ _)⟩

theorem reads_groupsOpened (arguments : List Argument) (n : Nat) (groups : List (Position × List Argument))
    (rest : List Char) (p : Position) : ∃ groups' p', groups'.length = groups.length + n ∧
      Reads (insideGroups opener groups (List.replicate n '(' ++ rest) p) (grouping name start arguments groups)
        (insideGroups opener groups' rest p') (grouping name start arguments groups') := by
  induction n generalizing groups p with
  | zero => exact ⟨groups, p, rfl, .refl _ _⟩
  | succ n ih =>
    obtain ⟨groups', p', hlength, hreads⟩ := ih ((p, []) :: groups) (p.next '(')
    refine ⟨groups', p', ?_, (reads_groupOpened name start opener arguments groups _ p).trans hreads⟩
    rw [hlength, List.length_cons]
    omega

theorem reads_groupsClosed (n : Nat) (arguments : List Argument) (groups : List (Position × List Argument))
    (hgroups : groups.length = n) (rest : List Char) (p : Position) : ∃ arguments' p',
      Reads (insideGroups opener groups (List.replicate n ')' ++ rest) p) (grouping name start arguments groups)
        (inside opener rest p') (calling name start arguments') := by
  induction n generalizing groups arguments p with
  | zero =>
    obtain rfl := List.length_eq_zero_iff.1 hgroups
    exact ⟨arguments, p, .refl _ _⟩
  | succ n ih =>
    obtain ⟨g, groups, rfl⟩ := List.exists_cons_of_length_eq_add_one hgroups
    obtain ⟨arguments', groups', hfst, hclosed⟩ := reads_groupClosed name start opener arguments g groups _ p
    have hlength : groups'.length = n := by
      have := congrArg List.length hfst
      simp only [List.length_map, List.length_cons] at this hgroups
      omega
    obtain ⟨arguments'', p', hreads⟩ := ih arguments' groups' hlength (p.next ')')
    exact ⟨arguments'', p', hclosed.trans hreads⟩

end Groups

/-- A call with so many parentheses, one in another, for its argument. -/
def nestedCall (n : Nat) : List Char :=
  callText ['f'] (List.replicate n '(' ++ List.replicate n ')')

/-- However much room there is, there is a script for which it is not enough, though it is well formed. -/
theorem nestedCall_exhausts (room : Nat) (file : Option String) :
    parseWithin (·.nestsWithin room) (nestedCall room) file = none ∧
      ∃ invocations, parseText (nestedCall room) file = .ok invocations := by
  let name : List Char := ['f']
  let opener : Position := Position.start.after name
  let closers : List Char := List.replicate room ')' ++ [')']
  have hopening : Reads ⟨⟨name ++ '(' :: (List.replicate room '(' ++ closers), .start⟩, []⟩ .initial
      (inside opener (List.replicate room '(' ++ closers) (opener.next '(')) (calling (String.ofList name) .start []) :=
    reads_opening (by decide) _ .start
  obtain ⟨groups, p, hgroups, hopened⟩ :=
    reads_groupsOpened (String.ofList name) .start opener [] room [] closers (opener.next '(')
  rw [List.length_nil, Nat.zero_add] at hgroups
  have hdeep := hopening.trans hopened
  have htext : name ++ '(' :: (List.replicate room '(' ++ closers) = nestedCall room := by
    simp [nestedCall, callText, name, closers]
  rw [htext] at hdeep
  constructor
  · let fits (s : ScanState) : Bool := s.nestsWithin room
    have hunfit : fits (insideGroups opener groups closers p) = false := by
      simp [fits, ScanState.nestsWithin, scanners_insideGroups, hgroups]
    obtain ⟨hending, b, hb⟩ := hdeep.exhausted hunfit
    change parseWithin fits (nestedCall room) file = none
    simp only [parseWithin, scanWithin, hb, hending]
  · obtain ⟨arguments, q, hclosed⟩ :=
      reads_groupsClosed (String.ofList name) .start opener room [] groups hgroups [')'] p
    have hclosing := reads_closing (String.ofList name) .start opener arguments [] .nil q
    exact ⟨_, parseText_of_succeeds (((hdeep.trans hclosed).trans hclosing).succeeds rfl) file⟩

/-- Room for a thousand scanners is too little for a thousand parentheses in a call. -/
theorem nestedCall_exhausts_thousand :
    parseWithin (·.nestsWithin 1000) (nestedCall 1000) none = none ∧
      ∃ invocations, parseText (nestedCall 1000) none = .ok invocations :=
  nestedCall_exhausts 1000 none

end Scanning

end CommandScript
