import Mis.Proofs.Reader
import Mis.Proofs.Grammar

/-!
What a reader has read when it is done, and what it has read when it stops. The
tokens in front of a failure can always be continued to what was to be read, save
where an expression stands in the place of a statement: that failure is found
only behind the token it names. A reader looks at no token beyond the first one
that it leaves.
-/
namespace Mis

/-- Whether the failure is found only behind the token that it is about. -/
def ParseCause.isLate : ParseCause → Bool
  | .expectedCall _ => true
  | _ => false

/-- The token that does not fit what stands in front of it. -/
def ParseCause.got? : ParseCause → Option Token
  | .expected _ got | .expectedIdentifier got | .unexpected got | .expectedDeclaration got =>
    some got
  | .expectedCall _ | .unexpectedEnd => none

/-- More tokens make a word of the language of it. -/
def Begins (language : List Token → Prop) (ts : List Token) : Prop :=
  ∃ more, language (ts ++ more)

theorem Begins.within {L M : List Token → Prop} {ts us : List Token} (h : Begins M us)
    (before after : List Token) (hts : ts = before ++ us)
    (hL : ∀ word, M word → L (before ++ word ++ after)) : Begins L ts := by
  obtain ⟨more, hmore⟩ := h
  exact ⟨more ++ after, by simpa [hts] using hL _ hmore⟩

namespace Reader

variable {α β : Type}

/-- Of the tokens `ts`, what `r` reads satisfies `done`, and what stands in front of a failure
satisfies `begun`. A failure names the token it is found at, and none at the end of the tokens.
Other tokens behind the first one left change nothing. -/
structure Covers (r : Reader α) (ts : List Token) (done : List Token → α → List Token → Prop)
    (begun : List Token → Prop) : Prop where
  read : ∀ {a : α} {rest : List Token}, r ts = .ok (a, rest) →
    ∃ p, ts = p ++ rest ∧ done p a rest ∧
      ∀ us : List Token, us.head? = rest.head? → r (p ++ us) = .ok (a, us)
  failed : ∀ {c : ParseCause} {rest : List Token}, r ts = .error ⟨c, rest⟩ → c.isLate = false →
    ∃ p, ts = p ++ rest ∧ c.got? = rest.head? ∧ begun p ∧
      ∀ us : List Token, us.head? = rest.head? → r (p ++ us) = .error ⟨c, us⟩

namespace Covers

variable {r r' : Reader α} {ts : List Token} {D D' : List Token → α → List Token → Prop}
  {B B' : List Token → Prop}

theorem mono (h : r.Covers ts D B) (hD : ∀ p a rest, ts = p ++ rest → D p a rest → D' p a rest)
    (hB : ∀ p, B p → B' p) : r.Covers ts D' B' where
  read hr := by
    obtain ⟨p, hts, hp, hlocal⟩ := h.read hr
    exact ⟨p, hts, hD p _ _ hts hp, hlocal⟩
  failed hr hc := by
    obtain ⟨p, hts, hgot, hp, hlocal⟩ := h.failed hr hc
    exact ⟨p, hts, hgot, hB p hp, hlocal⟩

theorem withPrefix (h : r.Covers ts D B) : r.Covers ts D fun p => B p ∧ p <+: ts where
  read := h.read
  failed hr hc := by
    obtain ⟨p, hts, hgot, hp, hlocal⟩ := h.failed hr hc
    exact ⟨p, hts, hgot, ⟨hp, _, hts.symm⟩, hlocal⟩

/-- A reader that reads nothing. -/
theorem ofOk (a : α) (hr : ∀ us : List Token, us.head? = ts.head? → r us = .ok (a, us))
    (h : D [] a ts) : r.Covers ts D B where
  read hread := by
    rw [hr ts rfl] at hread
    cases hread
    exact ⟨[], rfl, h, hr⟩
  failed hfailed _ := by
    rw [hr ts rfl] at hfailed
    cases hfailed

theorem done {a : α} (h : D [] a ts) : (Reader.done a).Covers ts D B :=
  ofOk a (fun _ _ => rfl) h

/-- A reader that fails at the first token. -/
theorem ofError {c : ParseCause} (hc : c.got? = ts.head?)
    (hr : ∀ us : List Token, us.head? = ts.head? → r us = .error ⟨c, us⟩) (h : B []) :
    r.Covers ts D B where
  read hread := by
    rw [hr ts rfl] at hread
    cases hread
  failed hfailed _ := by
    rw [hr ts rfl] at hfailed
    cases hfailed
    exact ⟨[], rfl, hc, h, hr⟩

theorem ofErrorNil {c : ParseCause} (hr : r [] = .error ⟨c, []⟩) (hc : c.got? = none) (h : B []) :
    r.Covers [] D B := by
  have hstop : ∀ us : List Token, us.head? = none → r us = .error ⟨c, us⟩ := by
    intro us hus
    rw [List.head?_eq_none_iff.mp hus, hr]
  exact ofError hc hstop h

theorem ofErrorCons {c : ParseCause} {t : Token} {rest : List Token}
    (hr : ∀ us, r (t :: us) = .error ⟨c, t :: us⟩) (hc : c.got? = some t) (h : B []) :
    r.Covers (t :: rest) D B := by
  have hstop : ∀ us : List Token, us.head? = some t → r us = .error ⟨c, us⟩ := by
    intro us hus
    obtain ⟨more, rfl⟩ := List.head?_eq_some_iff.mp hus
    exact hr more
  exact ofError hc hstop h

/-- A reader that goes over `first` where this head follows. -/
theorem stepTo (first : List Token)
    (hr : ∀ us : List Token, us.head? = ts.head? → r' (first ++ us) = r us)
    (h : r.Covers ts (fun p => D (first ++ p)) fun p => B (first ++ p)) :
    r'.Covers (first ++ ts) D B := by
  have hhead : ∀ {p rest us : List Token}, ts = p ++ rest → us.head? = rest.head? →
      r' (first ++ p ++ us) = r (p ++ us) := by
    intro p rest us hts hus
    rw [List.append_assoc]
    apply hr
    rw [hts, List.head?_append, List.head?_append, hus]
  constructor
  · intro a rest hread
    rw [hr ts rfl] at hread
    obtain ⟨p, hts, hp, hlocal⟩ := h.read hread
    refine ⟨first ++ p, by rw [hts, List.append_assoc], hp, fun us hus => ?_⟩
    exact (hhead hts hus).trans (hlocal us hus)
  · intro c rest hfailed hc
    rw [hr ts rfl] at hfailed
    obtain ⟨p, hts, hgot, hp, hlocal⟩ := h.failed hfailed hc
    refine ⟨first ++ p, by rw [hts, List.append_assoc], hgot, hp, fun us hus => ?_⟩
    exact (hhead hts hus).trans (hlocal us hus)

/-- A reader that goes over `first` whatever follows. -/
theorem step (first : List Token) (hr : ∀ us, r' (first ++ us) = r us)
    (h : r.Covers ts (fun p => D (first ++ p)) fun p => B (first ++ p)) :
    r'.Covers (first ++ ts) D B :=
  stepTo first (fun us _ => hr us) h

/-- Readers that agree on all tokens with this head. -/
theorem congr (h : r.Covers ts D B)
    (hr : ∀ us : List Token, us.head? = ts.head? → r' us = r us) : r'.Covers ts D B :=
  stepTo [] hr h

theorem congr_cons {t : Token} {rest : List Token} (h : r.Covers (t :: rest) D B)
    (hr : ∀ us, r' (t :: us) = r (t :: us)) : r'.Covers (t :: rest) D B := by
  refine h.congr fun us hus => ?_
  obtain ⟨more, rfl⟩ := List.head?_eq_some_iff.mp hus
  exact hr more

theorem andThen {r : Reader β} {next : β → Reader α} {E : List Token → β → List Token → Prop}
    {C : List Token → Prop} (h : r.Covers ts E C) (hfailed : ∀ p, C p → B p)
    (hnext : ∀ p b rest, r ts = .ok (b, rest) → ts = p ++ rest → E p b rest →
      (next b).Covers rest (fun q a => D (p ++ q) a) (fun q => B (p ++ q))) :
    (r.andThen next).Covers ts D B := by
  have hhead : ∀ {q rest' us rest : List Token}, rest = q ++ rest' → us.head? = rest'.head? →
      (q ++ us).head? = rest.head? := by
    intro q rest' us rest hrest hus
    rw [hrest, List.head?_append, List.head?_append, hus]
  constructor
  · intro a rest' hread
    obtain ⟨b, rest, hr, hread⟩ := andThen_eq_ok.mp hread
    obtain ⟨p, hts, hp, hlocal⟩ := h.read hr
    obtain ⟨q, hrest, hq, hnextLocal⟩ := (hnext p b rest hr hts hp).read hread
    refine ⟨p ++ q, by simp [hts, hrest], hq, fun us hus => ?_⟩
    rw [List.append_assoc, andThen_of_ok (hlocal (q ++ us) (hhead hrest hus))]
    exact hnextLocal us hus
  · intro c rest' hfail hc
    obtain hfail | ⟨b, rest, hr, hfail⟩ := andThen_eq_error.mp hfail
    · obtain ⟨p, hts, hgot, hp, hlocal⟩ := h.failed hfail hc
      refine ⟨p, hts, hgot, hfailed p hp, fun us hus => ?_⟩
      exact andThen_eq_error.mpr (.inl (hlocal us hus))
    · obtain ⟨p, hts, hp, hlocal⟩ := h.read hr
      obtain ⟨q, hrest, hgot, hq, hnextLocal⟩ := (hnext p b rest hr hts hp).failed hfail hc
      refine ⟨p ++ q, by simp [hts, hrest], hgot, hq, fun us hus => ?_⟩
      rw [List.append_assoc, andThen_of_ok (hlocal (q ++ us) (hhead hrest hus))]
      exact hnextLocal us hus

end Covers

/-- A token that may be left out, and what stands behind it. -/
theorem Covers.skipping {next : Reader α} {ts : List Token}
    {D : List Token → α → List Token → Prop} {B : List Token → Prop} (t : Token)
    (h : ∀ sep : List Token, Optional t sep → ts = sep ++ Read.skip t ts →
      next.Covers (Read.skip t ts) (fun q => D (sep ++ q)) fun q => B (sep ++ q)) :
    ((Reader.skipping t).andThen fun _ => next).Covers ts D B := by
  by_cases ht : ts.head? = some t
  · obtain ⟨rest, rfl⟩ := List.head?_eq_some_iff.mp ht
    rw [Read.skip_self] at h
    refine .step [t] ?_ (h [t] (.inr rfl) rfl)
    intro us
    rw [skipping_andThen, List.singleton_append, Read.skip_self]
  · have hskip := Read.skip_of_head?_ne ht
    rw [hskip] at h
    refine (h [] (.inl rfl) rfl).congr ?_
    intro us hus
    rw [skipping_andThen, Read.skip_of_head?_ne (hus ▸ ht)]

end Reader

end Mis
