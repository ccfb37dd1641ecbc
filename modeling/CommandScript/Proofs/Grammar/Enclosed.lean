import CommandScript.Proofs.Scanning.Places

/-! What is built inside a call. The builder hands a finished tree to the one around it and looks no further, so that
the tokens between the parentheses of a call are built into the same arguments whatever the call is, and whatever
arguments of it are complete before. -/

namespace CommandScript.Syntax

open Text Scanning

/-- The trees that are open inside a call, innermost first, and arguments of the call that are complete, last first. -/
structure Inner where
  opened : List OpenTree := []
  arguments : List Argument := []

/-- All trees that are open then, if some arguments of the call are complete before. -/
def Inner.under (k : Inner) (name : String) (start : Position) (before : List Argument) : List OpenTree :=
  k.opened ++ [.call name start (k.arguments ++ before)]

/-- What is done with the open trees is the same in every call, and leaves the call itself open. -/
def Inner.Carries (k : Inner) (f : List OpenTree → Option (List OpenTree)) : Prop :=
  ∃ r : Option Inner, ∀ name start before,
    f (k.under name start before) = r.map fun k' => k'.under name start before

theorem Inner.Carries.builder {k : Inner} {f : List OpenTree → Option (List OpenTree)} (h : k.Carries f) :
    ∃ r : Option Inner, ∀ done name start before, (f (k.under name start before)).map (Builder.mk done) =
      r.map fun k' => Builder.mk done (k'.under name start before) := by
  obtain ⟨r, h⟩ := h
  exact ⟨r, fun done name start before => by rw [h, Option.map_map]; rfl⟩

theorem addPart_under (part : Part) (k : Inner) : k.Carries fun opened => some (OpenTree.addPart part opened) := by
  obtain ⟨os, as⟩ := k
  cases os with
  | nil => exact ⟨some ⟨[], as⟩, fun _ _ _ => rfl⟩
  | cons x os => exact ⟨some ⟨OpenTree.addPart part (x :: os), as⟩, fun _ _ _ => by cases x <;> rfl⟩

theorem addArgument_under (argument : Argument) (k : Inner) :
    k.Carries fun opened => some (OpenTree.addArgument argument opened) := by
  obtain ⟨os, as⟩ := k
  cases os with
  | nil => exact ⟨some ⟨[], argument :: as⟩, fun _ _ _ => rfl⟩
  | cons x os => exact ⟨some ⟨OpenTree.addArgument argument (x :: os), as⟩, fun _ _ _ => by cases x <;> rfl⟩

theorem feedPart_under (t : Token) (k : Inner) : k.Carries (OpenTree.feedPart t) := by
  obtain ⟨lexeme, p, q⟩ := t
  obtain ⟨os, as⟩ := k
  cases lexeme with
  | text value => exact addPart_under (.text p value) ⟨os, as⟩
  | variableOpen space => exact ⟨some ⟨.variable p space [] :: os, as⟩, fun _ _ _ => rfl⟩
  | commandOpen => exact ⟨some ⟨.reference :: os, as⟩, fun _ _ _ => rfl⟩
  | _ => exact ⟨none, fun _ _ _ => rfl⟩

theorem feedArgument_under (t : Token) (k : Inner) : k.Carries (OpenTree.feedArgument t) := by
  obtain ⟨os, as⟩ := k
  have hpart := feedPart_under t ⟨.unquoted [] :: os, as⟩
  obtain ⟨lexeme, p, q⟩ := t
  cases lexeme with
  | leftParen => exact ⟨some ⟨.group p [] :: os, as⟩, fun _ _ _ => rfl⟩
  | quote => exact ⟨some ⟨.quoted p [] :: os, as⟩, fun _ _ _ => rfl⟩
  | bracket content => exact addArgument_under (.bracket p content) ⟨os, as⟩
  | _ => exact hpart

/-- A token does the same in every call, unless it completes one. -/
theorem feed?_under (t : Token) (k : Inner) :
    (∃ r : Option Inner, ∀ done name start before, (Builder.mk done (k.under name start before)).feed? t =
      r.map fun k' => Builder.mk done (k'.under name start before)) ∨
    ∀ done name start before b, (Builder.mk done (k.under name start before)).feed? t = some b → b.done ≠ done := by
  have hpart (k : Inner) := (feedPart_under t k).builder
  have hargument (k : Inner) := (feedArgument_under t k).builder
  have hcompletes {done : List Invocation} {i : Invocation} {opened : List OpenTree} {b : Builder}
      (h : some ⟨i :: done, opened⟩ = some b) : b.done ≠ done := by
    cases h
    exact List.cons_ne_self i done
  obtain ⟨lexeme, p, q⟩ := t
  obtain ⟨os, as⟩ := k
  cases os with
  | nil =>
    cases lexeme with
    | rightParen => exact .inr fun _ _ _ _ _ h => hcompletes h
    | _ => exact .inl (hargument ⟨[], as⟩)
  | cons x os =>
    cases x with
    | named name start =>
      cases lexeme with
      | leftParen => exact .inl ⟨some ⟨.call name start [] :: os, as⟩, fun _ _ _ _ => rfl⟩
      | _ => exact .inl ⟨none, fun _ _ _ _ => rfl⟩
    | call name start arguments =>
      cases lexeme with
      | rightParen => exact .inr fun _ _ _ _ _ h => hcompletes h
      | _ => exact .inl (hargument ⟨.call name start arguments :: os, as⟩)
    | group opener arguments =>
      cases lexeme with
      | rightParen => exact .inl (addArgument_under (.group opener arguments.reverse p) ⟨os, as⟩).builder
      | _ => exact .inl (hargument ⟨.group opener arguments :: os, as⟩)
    | quoted opener parts =>
      cases lexeme with
      | quote => exact .inl (addArgument_under (.quoted opener parts.reverse) ⟨os, as⟩).builder
      | _ => exact .inl (hpart ⟨.quoted opener parts :: os, as⟩)
    | unquoted parts =>
      cases lexeme with
      | argumentEnd =>
        cases hparts : parts.reverse with
        | nil => exact .inl ⟨none, fun _ _ _ _ => by simp [Builder.feed?, Inner.under, hparts]⟩
        | cons first others =>
          obtain ⟨r, h⟩ := (addArgument_under (.unquoted first others) ⟨os, as⟩).builder
          refine .inl ⟨r, fun done name start before => ?_⟩
          rw [← h]
          simp [Builder.feed?, Inner.under, hparts]
      | _ => exact .inl (hpart ⟨.unquoted parts :: os, as⟩)
    | «variable» opener space parts =>
      cases lexeme with
      | referenceClose => exact .inl (addPart_under (.variable opener space parts.reverse) ⟨os, as⟩).builder
      | _ => exact .inl (hpart ⟨.variable opener space parts :: os, as⟩)
    | reference =>
      cases lexeme with
      | name name => exact .inl ⟨some ⟨.referenceNamed p name :: os, as⟩, fun _ _ _ _ => rfl⟩
      | _ => exact .inl ⟨none, fun _ _ _ _ => rfl⟩
    | referenceNamed opener name =>
      cases lexeme with
      | leftParen => exact .inl ⟨some ⟨.referenceCall opener name [] :: os, as⟩, fun _ _ _ _ => rfl⟩
      | _ => exact .inl ⟨none, fun _ _ _ _ => rfl⟩
    | referenceCall opener name arguments =>
      cases lexeme with
      | rightParen => exact .inl ⟨some ⟨.referenceListed opener name arguments :: os, as⟩, fun _ _ _ _ => rfl⟩
      | _ => exact .inl (hargument ⟨.referenceCall opener name arguments :: os, as⟩)
    | referenceListed opener name arguments =>
      cases lexeme with
      | referenceClose => exact .inl (addPart_under (.command opener name arguments.reverse) ⟨os, as⟩).builder
      | _ => exact .inl ⟨none, fun _ _ _ _ => rfl⟩

theorem suffix_of_feedAll {ts : List Token} : ∀ {b b' : Builder}, b.feedAll ts = .ok b' → b.done <:+ b'.done := by
  induction ts with
  | nil =>
    rintro b b' ⟨⟩
    exact List.suffix_refl _
  | cons t ts ih =>
    intro b b' h
    rw [Builder.feedAll] at h
    split at h
    · rename_i b₁ hfeed
      have hmore := ih h
      rcases done_of_feed? hfeed with hd | ⟨i, -, hd⟩
      · rwa [hd] at hmore
      · rw [hd] at hmore
        exact (List.suffix_cons i b.done).trans hmore
    · cases h

/-- Tokens that complete no call are built into the same trees in every call. -/
theorem feedAll_under {ts : List Token} : ∀ {k : Inner} {done : List Invocation} {name : String} {start : Position}
    {before : List Argument} {b : Builder}, (Builder.mk done (k.under name start before)).feedAll ts = .ok b →
    b.done = done → ∃ k' : Inner, b = ⟨done, k'.under name start before⟩ ∧ ∀ done' name' start' before',
      (Builder.mk done' (k.under name' start' before')).feedAll ts = .ok ⟨done', k'.under name' start' before'⟩ := by
  induction ts with
  | nil =>
    rintro k done name start before b ⟨⟩ -
    exact ⟨k, rfl, fun _ _ _ _ => rfl⟩
  | cons t ts ih =>
    intro k done name start before b h hdone
    rw [Builder.feedAll] at h
    split at h
    · rename_i b₁ hfeed
      have hsuffix := suffix_of_feedAll h
      rw [hdone] at hsuffix
      have hdone₁ : b₁.done = done := by
        rcases done_of_feed? hfeed with hd | ⟨i, -, hd⟩
        · exact hd
        · rw [hd] at hsuffix
          exact absurd hsuffix.length_le (by simp)
      rcases feed?_under t k with ⟨r, hr⟩ | hgrows
      · rw [hr] at hfeed
        obtain ⟨k₁, rfl, rfl⟩ := Option.map_eq_some_iff.1 hfeed
        obtain ⟨k', hb, hall⟩ := ih h hdone
        refine ⟨k', hb, fun done' name' start' before' => ?_⟩
        rw [Builder.feedAll, hr]
        exact hall done' name' start' before'
      · exact absurd hdone₁ (hgrows _ _ _ _ _ hfeed)
    · cases h

end CommandScript.Syntax
