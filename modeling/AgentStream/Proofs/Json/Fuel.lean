/-
# Reading with more fuel

What is read with some fuel, up to something that follows it, is read so with any more.

* `Doc.readValue_succ`, `Doc.readItems_succ`, `Doc.readMembers_succ` : one more unit of fuel;
* `Doc.readMembers_fuel` : any greater amount.
-/
import AgentStream.Json.Reader

namespace AgentStream

namespace Doc

/-- What follows a value that may be nested so deeply follows its items or members. -/
theorem sealed_some {depth : Nat} {d d' : Doc} {rest : Option Bytes} {r : Bytes}
    (h : sealed depth d rest = (d', some r)) : rest = some r := by
  cases depth with
  | zero =>
    cases rest with
    | none => cases h
    | some s =>
      cases h
      rfl
  | succ depth =>
    cases h
    rfl

theorem readValue_bracket (fuel depth : Nat) (s : Bytes) :
    readValue (fuel + 1) depth (91 :: s) =
      match skipBlanks s with
      | 93 :: rest => sealed depth (arr []) (some rest)
      | t =>
        sealed depth (arr (readItems fuel (depth - 1) t).1)
          (readItems fuel (depth - 1) t).2 := by
  rewrite [readValue, if_neg (by decide), if_neg (by decide), if_neg (by decide),
    if_neg (by decide), if_pos rfl]
  rfl

theorem readValue_brace (fuel depth : Nat) (s : Bytes) :
    readValue (fuel + 1) depth (123 :: s) =
      match skipBlanks s with
      | 125 :: rest => sealed depth (obj []) (some rest)
      | t =>
        sealed depth (obj (readMembers fuel (depth - 1) t).1)
          (readMembers fuel (depth - 1) t).2 := by
  rewrite [readValue, if_neg (by decide), if_neg (by decide), if_neg (by decide),
    if_neg (by decide), if_neg (by decide), if_pos rfl]
  rfl

mutual

/-- A value is read with one more unit of fuel as it was. -/
theorem readValue_succ : ∀ (fuel depth : Nat) (s : Bytes) {d : Doc} {r : Bytes},
    readValue fuel depth s = (d, some r) → readValue (fuel + 1) depth s = (d, some r)
  | 0, _, _, _, _, h => nomatch h
  | _ + 1, _, [], _, _, h => nomatch h
  | fuel + 1, depth, b :: s, d, r, h => by
    by_cases h91 : b = 91
    · subst h91
      rw [readValue_bracket] at h ⊢
      split at h
      · exact h
      · have hrest := sealed_some h
        have hitems := readItems_succ fuel (depth - 1) (skipBlanks s) (Prod.ext rfl hrest)
        rw [hrest] at h
        rw [hitems]
        exact h
    by_cases h123 : b = 123
    · subst h123
      rw [readValue_brace] at h ⊢
      split at h
      · exact h
      · have hrest := sealed_some h
        have hmembers := readMembers_succ fuel (depth - 1) (skipBlanks s) (Prod.ext rfl hrest)
        rw [hrest] at h
        rw [hmembers]
        exact h
    -- No other value takes fuel.
    have hsame : readValue (fuel + 1 + 1) depth (b :: s) = readValue (fuel + 1) depth (b :: s) := by
      simp only [readValue, if_neg h91, if_neg h123]
    rw [hsame]
    exact h

/-- Items are read with one more unit of fuel as they were. -/
theorem readItems_succ : ∀ (fuel depth : Nat) (s : Bytes) {ds : List Doc} {r : Bytes},
    readItems fuel depth s = (ds, some r) → readItems (fuel + 1) depth s = (ds, some r)
  | 0, _, _, _, _, h => nomatch h
  | fuel + 1, depth, s, ds, r, h => by
    rw [readItems] at h ⊢
    cases hvalue : readValue fuel depth s with
    | mk d rest =>
      rw [hvalue] at h
      cases rest with
      | none => exact nomatch h
      | some rest =>
        rw [readValue_succ fuel depth s hvalue]
        simp only at h ⊢
        generalize skipBlanks rest = t at h ⊢
        split at h
        · exact h
        · rename_i t
          have hrest : (readItems fuel depth (skipBlanks t)).2 = some r := congrArg Prod.snd h
          have hitems := readItems_succ fuel depth (skipBlanks t) (Prod.ext rfl hrest)
          rw [hrest] at h
          simp only [hitems]
          exact h
        · exact nomatch h

/-- Members are read with one more unit of fuel as they were. -/
theorem readMembers_succ : ∀ (fuel depth : Nat) (s : Bytes)
    {ms : List (Option String × Doc)} {r : Bytes},
    readMembers fuel depth s = (ms, some r) → readMembers (fuel + 1) depth s = (ms, some r)
  | 0, _, _, _, _, h => nomatch h
  | fuel + 1, depth, s, ms, r, h => by
    rw [readMembers.eq_def] at h ⊢
    simp only at h ⊢
    split at h
    · rename_i s
      cases hname : readString s with
      | none =>
        rw [hname] at h
        exact nomatch h
      | some x =>
        obtain ⟨name, rest⟩ := x
        rw [hname] at h
        simp only at h ⊢
        generalize skipBlanks rest = t at h ⊢
        split at h
        · rename_i t
          cases hvalue : readValue fuel depth (skipBlanks t) with
          | mk d rest =>
            rw [hvalue] at h
            cases rest with
            | none => exact nomatch h
            | some rest =>
              rw [readValue_succ fuel depth (skipBlanks t) hvalue]
              simp only at h ⊢
              generalize skipBlanks rest = u at h ⊢
              split at h
              · exact h
              · rename_i u
                have hrest : (readMembers fuel depth (skipBlanks u)).2 = some r :=
                  congrArg Prod.snd h
                have hmembers := readMembers_succ fuel depth (skipBlanks u) (Prod.ext rfl hrest)
                rw [hrest] at h
                simp only [hmembers]
                exact h
              · exact nomatch h
        · exact nomatch h
    · exact nomatch h

end

/-- Members are read with any more fuel as they were. -/
theorem readMembers_fuel {fuel fuel' depth : Nat} {s : Bytes}
    {ms : List (Option String × Doc)} {r : Bytes} (hf : fuel ≤ fuel')
    (h : readMembers fuel depth s = (ms, some r)) :
    readMembers fuel' depth s = (ms, some r) := by
  induction hf with
  | refl => exact h
  | step _ ih => exact readMembers_succ _ depth s ih

end Doc

end AgentStream
