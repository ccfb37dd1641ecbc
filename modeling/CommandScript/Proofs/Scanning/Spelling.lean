import CommandScript.Proofs.Scanning.Places

/-! How faults are spelled. The token that a fault names is written in the text, character by character, from the place
where the fault is reported. So it is for a character that cannot be read, for a token out of place, which stands outside
all parentheses and so is held as it is written, and for the name of a block without an end. -/

namespace CommandScript.Scanning

open Text Syntax

/-! ### Tokens -/

/-- These characters stand in the text behind the place. -/
def SpelledAt (text : List Char) (p : Position) (cs : List Char) : Prop :=
  ∃ before rest, text = before ++ cs ++ rest ∧ p = Position.start.after before

theorem StandsAt.spelledAt {text : List Char} {p : Position} {x : Char} (h : StandsAt text p x) :
    SpelledAt text p [x] := by
  obtain ⟨before, rest, rfl, hp⟩ := h
  exact ⟨before, rest, by simp, hp⟩

/-- Names are held as they are written, and so is all that is read outside parentheses. -/
theorem Lexes.written_eq {p : Position} {contexts contexts' : List Context} {ps : List Piece} {rest : List Char}
    (h : Lexes p contexts ps rest contexts') : ∀ x ∈ ps, ((∃ name, x.lexeme = .name name) ∨ contexts = []) →
      x.written = x.lexeme.value.toList := by
  have hpart {kind : PartKind} {ds ds' : List Context} (h : LexesPart kind p ds ps rest ds') :
      ∀ x ∈ ps, (∃ name, x.lexeme = .name name) → x.written = x.lexeme.value.toList := by
    cases h with
    | command => simp [Lexeme.value]
    | «variable» | text => simp
  cases h with
  | name | stray => simp [Lexeme.value]
  | argument _ _ _ h =>
    intro x hx hname
    exact hpart h x hx (hname.resolve_right (List.cons_ne_nil _ _))
  | part _ _ _ h =>
    intro x hx hname
    exact hpart h x hx (hname.resolve_right (List.cons_ne_nil _ _))
  | _ => simp

theorem spelledAt_of_tokensFrom {text : List Char} {p : Position} {ps : List Piece} {rest : List Char}
    (hc : Follows text ⟨written ps ++ rest, p⟩) : ∀ t ∈ tokensFrom p ps, ∃ x ∈ ps, x.lexeme = t.lexeme ∧
      SpelledAt text t.start x.written := by
  induction ps generalizing p with
  | nil => simp [tokensFrom]
  | cons x ps ih =>
    intro t ht
    rw [tokensFrom] at ht
    rcases List.mem_cons.1 ht with rfl | ht
    · obtain ⟨before, htext, hp⟩ := hc
      refine ⟨x, List.mem_cons_self, rfl, before, written ps ++ rest, ?_, hp⟩
      rw [htext, written_cons]
      simp only [List.append_assoc]
    · have hr : written (x :: ps) ++ rest = x.written ++ (written ps ++ rest) := by
        rw [written_cons, List.append_assoc]
      have hnext : Follows text ⟨written ps ++ rest, p.after x.written⟩ := hc.take hr rfl
      obtain ⟨y, hy, hspelled⟩ := ih hnext t ht
      exact ⟨y, List.mem_cons_of_mem x hy, hspelled⟩

/-- The token is written at its place as it is held. -/
def IsSpelled (text : List Char) (t : Token) : Prop := SpelledAt text t.start t.lexeme.value.toList

theorem Moves.isSpelled {text : List Char} {s next : ScanState} {ts : List Token} (h : Moves s ts next)
    (hc : Follows text s.cursor) : ∀ t ∈ ts, ((∃ name, t.lexeme = .name name) ∨ s.contexts = []) →
      IsSpelled text t := by
  obtain ⟨p, ps, hparted, -, rfl, hlexes⟩ := h
  intro t ht hkind
  obtain ⟨x, hx, hlexeme, hspelled⟩ := spelledAt_of_tokensFrom (hparted.follows hc) t ht
  have hwritten := hlexes.written_eq x hx (by rwa [hlexeme])
  rwa [hwritten, hlexeme] at hspelled

/-- All names of a scan are spelled. -/
theorem isSpelled_of_scan {text : List Char} (s : ScanState) (hc : Follows text s.cursor) :
    ∀ t ∈ s.scan.tokens, (∃ name, t.lexeme = .name name) → IsSpelled text t := by
  induction s using ScanState.scan.induct with
  | case1 s hs => simp [ScanState.scan_finished hs]
  | case2 s fault p hs => simp [ScanState.scan_failed hs]
  | case3 s ts next hs ih =>
    rw [ScanState.scan_moved hs]
    have hm := step_eq_moved_iff.1 hs
    intro t ht hname
    rcases List.mem_append.1 ht with ht | ht
    · exact hm.isSpelled hc t ht (.inl hname)
    · exact ih (hm.follows hc) t ht hname

/-! ### Tokens out of place -/

theorem Refuses.isSpelled {text : List Char} {s next : ScanState} {b : Builder} {o : Outline} {ts us : List Token}
    (h : Refuses b o ts) (hs : s.step = .moved ts next) (hcontexts : s.contexts = []) (hc : Follows text s.cursor)
    {t : Token} {expected : List Terminal} (hf : b.feedAll (ts ++ us) = .error (t, expected)) : IsSpelled text t := by
  obtain ⟨t', rfl, hrefused, -, -⟩ := h
  rw [List.singleton_append, Builder.feedAll, hrefused] at hf
  cases hf
  exact (step_eq_moved_iff.1 hs).isSpelled hc t (List.mem_singleton.2 rfl) (.inr hcontexts)

/-- The token that stops the builder is spelled: it is the only one of a step outside all parentheses. -/
theorem isSpelled_of_feedAll {text : List Char} (s : ScanState) (hc : Follows text s.cursor) :
    ∀ {b : Builder} {o : Outline}, Tracks s.contexts b.opened o → ∀ {t : Token} {expected : List Terminal},
      b.feedAll s.scan.tokens = .error (t, expected) → IsSpelled text t := by
  induction s using ScanState.scan.induct with
  | case1 s hs =>
    intro b o _ t expected hf
    rw [ScanState.scan_finished hs] at hf
    cases hf
  | case2 s fault p hs =>
    intro b o _ t expected hf
    rw [ScanState.scan_failed hs] at hf
    cases hf
  | case3 s ts next hs ih =>
    intro b o htracks t expected hf
    rw [ScanState.scan_moved hs] at hf
    have hnext : Follows text next.cursor := (step_eq_moved_iff.1 hs).follows hc
    rcases takes_step htracks hs with ⟨⟨b₁, o₁, hb, -, ht⟩, -⟩ | hforgets | ⟨hcontexts, hrefuses⟩
    · rw [feedAll_append hb] at hf
      exact ih hnext ht hf
    · -- the name was forgotten, so the token behind it is refused
      obtain ⟨name, start, hopen⟩ := hforgets.opened
      obtain rfl := hforgets.tokens
      rw [List.nil_append] at hf
      obtain ⟨c, contexts⟩ := next
      obtain rfl : contexts = [] := hforgets.next_contexts
      cases hstep : (ScanState.mk c []).step with
      | finished =>
        rw [ScanState.scan_finished hstep] at hf
        cases hf
      | failed fault p =>
        rw [ScanState.scan_failed hstep] at hf
        cases hf
      | moved us after =>
        rw [ScanState.scan_moved hstep] at hf
        exact (refuses_stepTop hopen hstep).isSpelled hstep rfl hnext hf
    · exact hrefuses.isSpelled hs hcontexts hc hf

/-! ### Names of invocations -/

/-- Where an open invocation begins, with its name. -/
def start? : OpenTree → Option (String × Position)
  | .named name start | .call name start _ => some (name, start)
  | _ => none

/-- The names of the invocations that are complete or open, with the places where they begin. -/
def beginnings (b : Builder) : List (String × Position) :=
  b.done.map (fun i => (i.name, i.start)) ++ b.opened.filterMap start?

theorem filterMap_addPart (part : Part) (opened : List OpenTree) :
    (OpenTree.addPart part opened).filterMap start? = opened.filterMap start? := by
  unfold OpenTree.addPart
  split <;> rfl

theorem filterMap_addArgument (argument : Argument) (opened : List OpenTree) :
    (OpenTree.addArgument argument opened).filterMap start? = opened.filterMap start? := by
  unfold OpenTree.addArgument
  split <;> rfl

theorem filterMap_feedPart {t : Token} {opened opened' : List OpenTree} (h : OpenTree.feedPart t opened = some opened') :
    opened'.filterMap start? = opened.filterMap start? := by
  unfold OpenTree.feedPart at h
  split at h <;> cases h
  · exact filterMap_addPart _ opened
  · rfl
  · rfl

theorem filterMap_feedArgument {t : Token} {opened opened' : List OpenTree}
    (h : OpenTree.feedArgument t opened = some opened') : opened'.filterMap start? = opened.filterMap start? := by
  unfold OpenTree.feedArgument at h
  split at h
  · cases h
    rfl
  · cases h
    rfl
  · cases h
    exact filterMap_addArgument _ opened
  · exact (filterMap_feedPart h).trans rfl

/-- An invocation begins with the token of its name. -/
theorem beginnings_of_feed? {b b' : Builder} {t : Token} (h : b.feed? t = some b') :
    ∀ x ∈ beginnings b', x ∈ beginnings b ∨ t.lexeme = .name x.1 ∧ t.start = x.2 := by
  obtain ⟨done, opened⟩ := b
  have still {opened' : List OpenTree} (heq : opened'.filterMap start? = opened.filterMap start?)
      (x : String × Position) (hx : x ∈ beginnings ⟨done, opened'⟩) :
      x ∈ beginnings ⟨done, opened⟩ ∨ t.lexeme = .name x.1 ∧ t.start = x.2 := by
    unfold beginnings at hx
    rw [heq] at hx
    exact .inl hx
  unfold Builder.feed? at h
  simp only at h
  split at h
  case h_1 name hname =>
    cases h
    intro x hx
    rcases List.mem_append.1 hx with hx | hx
    · exact .inl (List.mem_append_left _ hx)
    · obtain rfl : x = (name, t.start) := List.mem_singleton.1 hx
      exact .inr ⟨hname, rfl⟩
  case h_3 name start arguments outer hparen =>
    cases h
    intro x hx
    simp only [beginnings, List.map_cons, List.cons_append, List.mem_cons, List.mem_append, List.filterMap_cons,
      start?] at hx ⊢
    obtain hx | hx | hx := hx
    · exact .inl (.inr (.inl hx))
    · exact .inl (.inl hx)
    · exact .inl (.inr (.inr hx))
  case h_6 | h_7 | h_8 =>
    obtain ⟨opened', hfeed, rfl⟩ := Option.map_eq_some_iff.1 h
    exact still (filterMap_feedArgument hfeed)
  case h_10 =>
    split at h <;> cases h
    exact still (filterMap_addArgument _ _)
  case h_12 | h_13 | h_14 =>
    obtain ⟨opened', hfeed, rfl⟩ := Option.map_eq_some_iff.1 h
    exact still (filterMap_feedPart hfeed)
  case h_18 => cases h
  all_goals cases h
  case h_4 | h_9 => exact still (filterMap_addArgument _ _)
  case h_11 | h_17 => exact still (filterMap_addPart _ _)
  all_goals exact still rfl

/-- All invocations begin with their names. -/
def BeginSpelled (text : List Char) (b : Builder) : Prop := ∀ x ∈ beginnings b, SpelledAt text x.2 x.1.toList

theorem beginSpelled_of_feedAll {text : List Char} {ts : List Token}
    (hts : ∀ t ∈ ts, (∃ name, t.lexeme = .name name) → IsSpelled text t) :
    ∀ {b b' : Builder}, b.feedAll ts = .ok b' → BeginSpelled text b → BeginSpelled text b' := by
  induction ts with
  | nil =>
    intro b b' h hb
    cases h
    exact hb
  | cons t ts ih =>
    intro b b' h hb
    obtain ⟨ht, hts⟩ := List.forall_mem_cons.1 hts
    rw [Builder.feedAll] at h
    split at h
    · rename_i b₁ hfeed
      refine ih hts h fun x hx => ?_
      rcases beginnings_of_feed? hfeed x hx with hx | ⟨hname, hstart⟩
      · exact hb x hx
      · have hspelled := ht ⟨x.1, hname⟩
        unfold IsSpelled at hspelled
        rwa [hname, hstart] at hspelled
    · cases h

theorem spelledAt_of_parseText {text : List Char} {file : Option String} {invocations : List Invocation}
    (h : parseText text file = .ok invocations) : ∀ i ∈ invocations, SpelledAt text i.start i.name.toList := by
  have hnames : ∀ t ∈ (scan text).tokens, (∃ name, t.lexeme = .name name) → IsSpelled text t :=
    isSpelled_of_scan ⟨⟨text, .start⟩, []⟩ ⟨[], rfl, rfl⟩
  unfold parseText at h
  simp only at h
  split at h
  · cases h
  · rename_i b hb
    have hspelled : BeginSpelled text b :=
      beginSpelled_of_feedAll hnames hb (by simp [BeginSpelled, beginnings, Builder.initial])
    split at h
    · cases h
    · split at h <;> cases h
      intro i hi
      have hmem : (i.name, i.start) ∈ beginnings b :=
        List.mem_append_left _ (List.mem_map.2 ⟨i, List.mem_reverse.1 hi, rfl⟩)
      exact hspelled _ hmem

/-! ### Faults -/

/-- A fault is reported where its token is written. -/
theorem spelledAt_of_parseText_error {text : List Char} {file : Option String} {f : Fault}
    (h : parseText text file = .error f) (htoken : f.token ≠ "") :
    ∃ p, f.location = p.inFile file ∧ SpelledAt text p f.token.toList := by
  unfold parseText at h
  simp only at h
  split at h
  · rename_i t expected hf
    cases h
    have hspelled : IsSpelled text t :=
      isSpelled_of_feedAll ⟨⟨text, .start⟩, []⟩ (b := Builder.initial) (o := .between) ⟨[], rfl, rfl⟩ .between hf
    exact ⟨t.start, rfl, hspelled⟩
  · split at h
    · rename_i fault p hf
      cases h
      refine ⟨p, rfl, ?_⟩
      have hstands := (standsAt_of_scan hf).spelledAt
      simpa [Fault.token, Char.toString] using hstands
    · split at h <;> cases h
      exact (htoken rfl).elim

end CommandScript.Scanning
