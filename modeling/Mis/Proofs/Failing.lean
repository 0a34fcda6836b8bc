import Mathlib.Data.List.Basic
import Mis.Proofs.Parsing

/-!
Failures of the parser are found at the first token that cannot go on what stands
in front of it: the tokens in front can be continued to a module, and with the
token added they cannot, whatever follows. At the end of the input nothing is wrong
with the tokens but that they end. The one failure left out is that of an
expression in the place of a statement, which is told at its first token.
-/
namespace Mis

/-- The reader gives up in front of the token with index `k`; past the last one it is the end. -/
structure StopsAt (tokens : List (Located Token)) (cause : ParseCause) (k : Nat) : Prop where
  le : k ≤ tokens.length
  failed : Read.wholeModule (tokens.map (·.value)) =
    .error ⟨cause, (tokens.map (·.value)).drop k⟩

/-- The place that is shown for the token with index `k`. -/
def placeOf (tokens : List (Located Token)) (source : String) (k : Nat) : Position :=
  ((tokens[k]?).map (·.position)).getD (endPosition source)

variable {tokens : List (Located Token)} {cause : ParseCause} {k : Nat}

theorem StopsAt.parse_eq (h : StopsAt tokens cause k) (source : String) :
    parse tokens source = .error (.inSource source cause (placeOf tokens source k)) := by
  have hk : tokens.length - (tokens.length - k) = k := by
    have := h.le
    omega
  have hplace : Failure.position ⟨cause, (tokens.map (·.value)).drop k⟩ tokens source =
      placeOf tokens source k := by
    rw [Failure.position, List.length_drop, List.length_map, hk, List.head?_drop, placeOf]
    cases tokens[k]? with
    | none | some t => rfl
  simp only [Mis.parse_eq, h.failed, hplace]

/-- Token lists that agree up to index `k` agree in front of it and at it. -/
theorem take_and_head?_drop {ts us : List Token} (h : us.take (k + 1) = ts.take (k + 1)) :
    us.take k = ts.take k ∧ (us.drop k).head? = (ts.drop k).head? := by
  constructor
  · have htake := congrArg (List.take k) h
    rwa [List.take_take, List.take_take, Nat.min_eq_left (Nat.le_succ k)] at htake
  · have hget := congrArg (fun l => l[k]?) h
    simp only [List.getElem?_take_of_lt (Nat.lt_succ_self k)] at hget
    rw [List.head?_drop, List.head?_drop, hget]

/-- A failure stands behind the tokens that it does not keep. -/
theorem StopsAt.of_append {ts : List Token} {f : Failure}
    (hf : Read.wholeModule (tokens.map (·.value)) = .error f)
    (hts : tokens.map (·.value) = ts ++ f.rest) :
    StopsAt tokens f.cause ts.length ∧ f.rest.head? = (tokens[ts.length]?).map (·.value) := by
  have hdrop : (tokens.map (·.value)).drop ts.length = f.rest := by rw [hts, List.drop_left]
  have hlength := congrArg List.length hts
  rw [List.length_map, List.length_append] at hlength
  refine ⟨⟨by omega, by rw [hdrop, hf]⟩, ?_⟩
  rw [← hdrop, List.head?_drop, List.getElem?_map]

/-- A failure that is found in time: which token it names, and what it says of the tokens in front
of that one and of those behind it. -/
theorem exists_stopsAt {f : Failure}
    (hf : Read.wholeModule (tokens.map (·.value)) = .error f) (hlate : f.cause.isLate = false) :
    ∃ k, StopsAt tokens f.cause k ∧ f.cause.got? = (tokens[k]?).map (·.value) ∧
      Begins (fun us => ∃ m, Module.Derives .canonical us m) ((tokens.take k).map (·.value)) ∧
      ∀ tokens' : List (Located Token),
        (tokens'.map (·.value)).take (k + 1) = (tokens.map (·.value)).take (k + 1) →
        StopsAt tokens' f.cause k := by
  obtain ⟨p, hts, hgot, hbegun, hlocal⟩ :=
    (Read.covers_wholeModule _).failed (Read.toEnd_eq_error.mpr hf) hlate
  have htake : (tokens.map (·.value)).take p.length = p := by rw [hts, List.take_left]
  have hdrop : (tokens.map (·.value)).drop p.length = f.rest := by rw [hts, List.drop_left]
  obtain ⟨hstops, hnext⟩ := StopsAt.of_append hf hts
  refine ⟨p.length, hstops, by rw [hgot, hnext], ?_, ?_⟩
  · rw [List.map_take, htake]
    exact hbegun
  · intro tokens' hagree
    obtain ⟨hfront, hhead⟩ := take_and_head?_drop hagree
    rw [htake] at hfront
    rw [hdrop] at hhead
    have hvalues := List.take_append_drop p.length (tokens'.map (·.value))
    rw [hfront] at hvalues
    have hlength := congrArg List.length hvalues
    rw [List.length_append, List.length_map] at hlength
    have hfailed := Read.toEnd_eq_error.mp (hlocal _ hhead)
    rw [hvalues] at hfailed
    exact ⟨by omega, hfailed⟩

/-- Located tokens that agree up to index `k` show the same place for it. -/
theorem placeOf_congr {tokens' : List (Located Token)}
    (h : tokens'.take (k + 1) = tokens.take (k + 1)) (source : String) :
    placeOf tokens' source k = placeOf tokens source k := by
  have hget := congrArg (fun l => l[k]?) h
  simp only [List.getElem?_take_of_lt (Nat.lt_succ_self k)] at hget
  rw [placeOf, hget, placeOf]

theorem exists_parse_of_begins
    (h : Begins (fun us => ∃ m, Module.Derives .canonical us m) (tokens.map (·.value)))
    (source : String) : ∃ more m, parse (tokens ++ more) source = .ok m := by
  obtain ⟨us, tree, htree⟩ := h
  obtain ⟨more, rfl⟩ : ∃ more : List (Located Token), more.map (·.value) = us :=
    ⟨us.map fun t => ⟨t, .start⟩, by simp [Function.comp_def]⟩
  rw [← List.map_append] at htree
  exact ⟨more, exists_parse_of_derives htree source⟩

theorem parse_eq_error {source : String} {e : ParseError} (h : parse tokens source = .error e) :
    ∃ f, Read.wholeModule (tokens.map (·.value)) = .error f ∧ f.cause = e.cause := by
  rw [parse_eq] at h
  cases hf : Read.wholeModule (tokens.map (·.value)) with
  | ok m => simp [hf] at h
  | error f =>
      simp only [hf, Except.error.injEq] at h
      exact ⟨f, rfl, congrArg Diagnostic.cause h⟩

theorem ParseCause.not_isLate {t : Token} (h : cause.got? = some t) : cause.isLate = false := by
  cases cause with
  | expectedCall _ => cases h
  | expected _ _ | expectedIdentifier _ | unexpected _ | expectedDeclaration _ | unexpectedEnd =>
      rfl

/-- A failure at a token does not depend on what follows it, and the tokens in front of it can be
continued to a module. A failure at the end is no fault of the tokens: all of them can be
continued. -/
theorem parse_error_earliest {source : String} {e : ParseError}
    (h : parse tokens source = .error e) :
    (∀ t, e.cause.got? = some t →
      ∃ k, StopsAt tokens e.cause k ∧ (tokens[k]?).map (·.value) = some t ∧
        e = .inSource source e.cause (placeOf tokens source k) ∧
        (∀ tokens' : List (Located Token),
          (tokens'.map (·.value)).take (k + 1) = (tokens.map (·.value)).take (k + 1) →
          StopsAt tokens' e.cause k ∧
            (tokens'.take (k + 1) = tokens.take (k + 1) → parse tokens' source = .error e)) ∧
        ∃ more m, parse (tokens.take k ++ more) source = .ok m) ∧
    (e.cause = .unexpectedEnd →
      StopsAt tokens e.cause tokens.length ∧ ∃ more m, parse (tokens ++ more) source = .ok m) := by
  obtain ⟨f, hf, hcause⟩ := parse_eq_error h
  rw [← hcause]
  constructor
  · intro t ht
    obtain ⟨k, hstops, hgot, hbegun, hagree⟩ := exists_stopsAt hf (ParseCause.not_isLate ht)
    have he : e = .inSource source f.cause (placeOf tokens source k) := by
      rw [hstops.parse_eq source] at h
      exact (Except.error.inj h).symm
    refine ⟨k, hstops, by rw [← hgot, ht], he, ?_, exists_parse_of_begins hbegun source⟩
    intro tokens' hvalues
    refine ⟨hagree tokens' hvalues, fun hlocated => ?_⟩
    rw [(hagree tokens' hvalues).parse_eq source, placeOf_congr hlocated, he]
  · intro hend
    obtain ⟨k, hstops, hgot, hbegun, _⟩ := exists_stopsAt hf (by rw [hend]; rfl)
    have hk : k = tokens.length := by
      rw [hend, ParseCause.got?, eq_comm, Option.map_eq_none_iff, List.getElem?_eq_none_iff] at hgot
      exact Nat.le_antisymm hstops.le hgot
    subst hk
    rw [List.take_length] at hbegun
    exact ⟨hstops, exists_parse_of_begins hbegun source⟩

/-- The source `const x: = 1`. -/
def untyped : List (Located Token) :=
  [⟨.keyword .constKw, ⟨1, 1⟩⟩, ⟨.identifier "x", ⟨1, 7⟩⟩, ⟨.punct .colon, ⟨1, 8⟩⟩,
    ⟨.punct .assign, ⟨1, 10⟩⟩, ⟨.number 1, ⟨1, 12⟩⟩]

/-- The constant without a type fails at `=`, and what stands in front of it can be continued.
Without its last two tokens it fails at the end. -/
theorem untyped_parse_error :
    parse untyped "const x: = 1" = .error ⟨.expectedIdentifier (.punct .assign), ⟨1, 10⟩,
      "const x: = 1\n         ^"⟩ ∧
    (∃ k, StopsAt untyped (.expectedIdentifier (.punct .assign)) k ∧
      ∃ more m, parse (untyped.take k ++ more) "const x: = 1" = .ok m) ∧
    parse (untyped.take 3) "const x:" = .error ⟨.unexpectedEnd, ⟨1, 9⟩, "const x:\n        ^"⟩ ∧
    ∃ more m, parse (untyped.take 3 ++ more) "const x:" = .ok m := by
  have hfails : parse untyped "const x: = 1" = .error ⟨.expectedIdentifier (.punct .assign),
      ⟨1, 10⟩, "const x: = 1\n         ^"⟩ := by
    rw [parse_eq]
    cbv
  have hends : parse (untyped.take 3) "const x:" = .error ⟨.unexpectedEnd, ⟨1, 9⟩,
      "const x:\n        ^"⟩ := by
    rw [parse_eq]
    cbv
  obtain ⟨k, hstops, _, _, _, hmore⟩ := (parse_error_earliest hfails).1 _ rfl
  exact ⟨hfails, ⟨k, hstops, hmore⟩, hends, ((parse_error_earliest hends).2 rfl).2⟩

end Mis
