import CommandScript.Proofs.Grammar.Enclosed
import CommandScript.Proofs.Grammar.Sources

/-! Arguments of a call, read in another one. The scanner reads the same lexemes from every place, and the builder
makes the same trees of them in every call; so what is read between two parentheses can be read at any other place
between two parentheses, behind any other arguments, and only the positions are others. -/

namespace CommandScript.Grammar

open Text Syntax Code Scanning

/-! ### The way of the scanner -/

/-- The scanner goes from one state to another and reads these tokens on the way. -/
inductive Scans : ScanState → List Token → ScanState → Prop where
  | refl (s : ScanState) : Scans s [] s
  | step {s next s' : ScanState} {ts us : List Token} (hs : s.step = .moved ts next) (h : Scans next us s') :
    Scans s (ts ++ us) s'

theorem exists_scans {s s' : ScanState} {b b' : Builder} (h : Reads s b s' b') :
    ∃ ts, Scans s ts s' ∧ b.feedAll ts = .ok b' := by
  induction h with
  | refl s b => exact ⟨[], .refl s, rfl⟩
  | step hs hb _ ih =>
    obtain ⟨us, hscans, hfeed⟩ := ih
    exact ⟨_, .step hs hscans, (feedAll_append hb us).trans hfeed⟩

theorem exists_of_feedAll_append {ts us : List Token} : ∀ {b b' : Builder}, b.feedAll (ts ++ us) = .ok b' →
    ∃ b₁, b.feedAll ts = .ok b₁ ∧ b₁.feedAll us = .ok b' := by
  induction ts with
  | nil => exact fun h => ⟨_, rfl, h⟩
  | cons t ts ih =>
    intro b b' h
    rw [List.cons_append, Builder.feedAll] at h
    rw [Builder.feedAll]
    split at h
    · exact ih h
    · cases h

theorem Scans.reads {s s' : ScanState} {ts : List Token} (h : Scans s ts s') : ∀ {b b' : Builder},
    b.feedAll ts = .ok b' → Reads s b s' b' := by
  induction h with
  | refl s =>
    rintro b b' ⟨⟩
    exact .refl s b
  | step hs _ ih =>
    intro b b' hb
    obtain ⟨b₁, h₁, h₂⟩ := exists_of_feedAll_append hb
    exact .step hs h₁ (ih h₂)

theorem Scans.corresponds {R : Position → Position → Prop} (hR : ∀ p q x, R p q → R (p.next x) (q.next x))
    {s s' : ScanState} {ts : List Token} (h : Scans s ts s') : ∀ {t : ScanState}, s.Corresponds R t →
    ∃ us t', Scans t us t' ∧ List.Forall₂ (Token.Corresponds R) ts us ∧ s'.Corresponds R t' := by
  induction h with
  | refl s => exact fun ht => ⟨[], _, .refl _, .nil, ht⟩
  | step hs _ ih =>
    intro t ht
    obtain ⟨us, next, hstep, htokens, hnext⟩ := step_corresponds hR ht hs
    obtain ⟨vs, t', hscans, hmore, ht'⟩ := ih hnext
    exact ⟨us ++ vs, t', .step hstep hscans, List.rel_append htokens hmore, ht'⟩

/-! ### In another call -/

theorem corresponds_inside {R : Position → Position → Prop} {p q : Position} (h : R p q) (opener opener' : Position)
    (cs : List Char) : (inside opener cs p).Corresponds R (inside opener' cs q) :=
  ⟨rfl, h, .cons (.arguments ..) .nil⟩

theorem exists_inside {R : Position → Position → Prop} {opener p : Position} {cs : List Char} {t : ScanState}
    (h : (inside opener cs p).Corresponds R t) : ∃ opener' q, t = inside opener' cs q := by
  obtain ⟨⟨rest, q⟩, contexts⟩ := t
  obtain ⟨hrest, -, hcontexts⟩ := h
  obtain rfl : rest = cs := hrest
  obtain _ | ⟨⟨⟩, ⟨⟩⟩ := hcontexts
  exact ⟨_, q, rfl⟩

/-- Tokens that are built into arguments of a call are so in every call, behind any arguments. -/
theorem feedAll_calling {ts : List Token} {name : String} {start : Position} {b : Builder}
    (h : (calling name start []).feedAll ts = .ok b) (hdone : b.done = []) (hopened : b.opened.length = 1) :
    ∃ arguments, b = calling name start arguments ∧ ∀ name' start' before,
      (calling name' start' before).feedAll ts = .ok (calling name' start' (arguments ++ before)) := by
  obtain ⟨⟨opened, arguments⟩, rfl, hall⟩ := feedAll_under (k := {}) h hdone
  obtain rfl : opened = [] := by simpa [Inner.under] using hopened
  exact ⟨arguments, by simp [Inner.under], fun name' start' before => hall [] name' start' before⟩

/-- What is built of tokens that were moved is moved. -/
theorem exists_unmoved {r : Relabelling} {us : List Token} {name : String} {start : Position}
    {arguments : List Argument} (h : (calling (r.name name) (r.place start) []).feedAll (us.map (Token.relabel r)) =
      .ok (calling (r.name name) (r.place start) arguments)) :
    ∃ own, arguments = relabelArguments r own ∧ (calling name start []).feedAll us = .ok (calling name start own) := by
  have hown := (feedAll_relabel (r := r) [] (calling name start []) us).symm.trans h
  cases hb : (calling name start []).feedAll us with
  | error e =>
    rw [hb] at hown
    cases hown
  | ok b =>
    rw [hb] at hown
    obtain ⟨hdone, hopened⟩ := Builder.mk.inj (Except.ok.inj hown)
    have hlength := congrArg List.length hopened
    rw [List.length_map] at hlength
    obtain ⟨own, rfl, -⟩ := feedAll_calling hb (by simpa using hdone) hlength
    refine ⟨own, ?_, rfl⟩
    obtain ⟨hcall, -⟩ := List.cons.inj hopened
    exact (OpenTree.call.inj hcall).2.2.symm

/-- Arguments that are read in a call are read at any other place, in any other call and behind any other arguments,
and only their positions are others. -/
theorem exists_elsewhere {cs rest front : List Char} {opener opener' p : Position} {name : String} {start : Position}
    {arguments : List Argument} (h : Reads (inside opener cs (Position.start.after front)) (calling name start [])
      (inside opener' rest p) (calling name start arguments)) :
    ∃ own, arguments = relabelArguments (relabellingTo (Position.start.after front)) own ∧
      ∀ opener₂ front₂ name₂ start₂ before, ∃ opener₂' p₂,
        Reads (inside opener₂ cs (Position.start.after front₂)) (calling name₂ start₂ before) (inside opener₂' rest p₂)
          (calling name₂ start₂ (relabelArguments (relabellingTo (Position.start.after front₂)) own ++ before)) := by
  obtain ⟨ts, hscans, hfeed⟩ := exists_scans h
  -- from the start of a text the same tokens are read, and built into a call that begins there
  obtain ⟨us, t, hscans₀, htokens, ht⟩ := hscans.corresponds (movedFrom_next (Position.start.after front))
    (corresponds_inside (movedFrom_start front) opener .start cs)
  obtain ⟨opener₀, p₀, rfl⟩ := exists_inside ht
  obtain ⟨as, heq, hall⟩ := feedAll_calling hfeed rfl rfl
  obtain rfl : arguments = as := by simpa using heq
  have hmoved := hall name (Position.movedTo (Position.start.after front) .start) []
  rw [map_relabel_of_movedFrom htokens, List.append_nil] at hmoved
  obtain ⟨own, hown, hfeed₀⟩ := exists_unmoved (r := relabellingTo (Position.start.after front)) hmoved
  refine ⟨own, hown, fun opener₂ front₂ name₂ start₂ before => ?_⟩
  -- and from there they are moved to the other place, and into the other call
  obtain ⟨vs, t, hscans₂, htokens₂, ht₂⟩ :=
    hscans₀.corresponds (R := fun q p => MovedFrom (Position.start.after front₂) p q)
      (fun q p x => movedFrom_next _ p q x) (t := inside opener₂ cs (Position.start.after front₂))
      (corresponds_inside (R := fun q p => MovedFrom (Position.start.after front₂) p q) (movedFrom_start front₂) .start
        opener₂ cs)
  obtain ⟨opener₂', p₂, rfl⟩ := exists_inside ht₂
  have hfeed₂ := feedAll_relabel (r := relabellingTo (Position.start.after front₂)) [] (calling name .start []) us
  rw [hfeed₀, ← map_relabel_of_moved htokens₂] at hfeed₂
  obtain ⟨as₂, heq₂, hall₂⟩ := feedAll_calling hfeed₂ rfl rfl
  obtain rfl : relabelArguments (relabellingTo (Position.start.after front₂)) own = as₂ := by
    simpa [Builder.relabel, OpenTree.relabel] using heq₂
  exact ⟨opener₂', p₂, hscans₂.reads (hall₂ name₂ start₂ before)⟩

end CommandScript.Grammar
