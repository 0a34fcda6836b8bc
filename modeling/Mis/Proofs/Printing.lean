import Mis.Proofs.Line

/-!
The text of a program determines the program, as long as names have the form of
names and comments stay on their line. Sections may be missing; what stands at
their place is told from them by the first word of its first line, and a
prototype from the head of a function by its last character. Nothing is asked of
the texts in literals, since their line breaks and quotes are written with a
backslash.
-/
namespace Mis.C

def Prototype.printable (p : Prototype) : Bool :=
  isName p.name && p.params.all (·.printable)

def Function.printable (f : Function) : Bool :=
  f.prototype.printable && f.locals.all (·.printable) && f.initials.all (isName ·.1) &&
    Stmt.printableAll f.body

def Struct.printable (s : Struct) : Bool :=
  isName s.name && s.fields.all (·.printable)

def Global.printable (g : Global) : Bool :=
  isName g.name && isName g.type.name

def Entry.printable (e : Entry) : Bool :=
  isName e.name && e.result.all (isName ·.name)

/-- Every name and type name has the form of a name, and every comment stays on its line. -/
def Program.printable (p : Program) : Bool :=
  p.structs.all (·.printable) && p.globals.all (·.printable) && p.prototypes.all (·.printable) &&
    p.functions.all (·.printable) && p.entry.printable

/-! Paragraphs. -/

section Paragraph

variable {α : Type} {P : α → Prop} {f : α → List String}

theorem readable_singleton {g : α → String} (h : ∀ a b, P a → P b → g a = g b → a = b) :
    Readable P (fun _ => True) fun a => [g a] := by
  intro a b ha hb r s _ _ heq
  injection heq with hhead htail
  exact ⟨h a b ha hb hhead, htail⟩

theorem paragraph_of_ne_nil {ls : List String} (h : ls ≠ []) : paragraph ls = ls ++ [""] := by
  rw [paragraph, if_neg]
  rwa [List.isEmpty_iff]

/-- Pieces with an empty line behind them, or nothing. -/
theorem readable_paragraph (h : Readable P (fun _ => True) f)
    (hhead : ∀ a, P a → ∃ l ls, f a = l :: ls ∧ l ≠ "") {R : List String → Prop}
    (hstop : ∀ r, R r → NoneAhead P f r) :
    Readable (fun as : List α => ∀ a ∈ as, P a) R fun as => paragraph (as.flatMap f) := by
  have hlist : Readable (fun as => ∀ a ∈ as, P a) (·.head? = some "") (List.flatMap f) := by
    apply h.flatMap (fun _ _ _ => trivial)
    intro r hr
    refine ⟨trivial, ?_⟩
    intro a ha s heq
    obtain ⟨l, ls, hpiece, hne⟩ := hhead a ha
    rw [heq, hpiece] at hr
    exact hne (Option.some.inj hr)
  have hcons {a : α} (ha : P a) (as : List α) (r : List String) :
      paragraph ((a :: as).flatMap f) ++ r = (a :: as).flatMap f ++ "" :: r := by
    obtain ⟨l, ls, hpiece, _⟩ := hhead a ha
    rw [paragraph_of_ne_nil, List.append_assoc]
    · rfl
    · rw [List.flatMap_cons, hpiece]
      exact List.cons_ne_nil l _
  intro as bs has hbs r s hr hs heq
  dsimp only at heq
  cases as with
  | nil =>
      cases bs with
      | nil => exact ⟨rfl, heq⟩
      | cons b bs =>
          have hb := hbs b List.mem_cons_self
          rw [hcons hb, List.flatMap_cons, List.append_assoc] at heq
          exact absurd heq (hstop r hr b hb _)
  | cons a as =>
      have ha := has a List.mem_cons_self
      cases bs with
      | nil =>
          rw [hcons ha, List.flatMap_cons, List.append_assoc] at heq
          exact absurd heq.symm (hstop s hs a ha _)
      | cons b bs =>
          rw [hcons ha, hcons (hbs b List.mem_cons_self)] at heq
          obtain ⟨hab, hrest⟩ := hlist has hbs rfl rfl heq
          exact ⟨hab, List.tail_eq_of_cons_eq hrest⟩

end Paragraph

/-! Structs and functions. -/

theorem readable_prototype :
    Readable (·.printable = true) (fun _ => True) fun p : Prototype => p.render.toList := by
  intro p q hp hq r s _ _ heq
  rw [Prototype.printable, Bool.and_eq_true, List.all_eq_true] at hp hq
  simp only [Prototype.render, String.toList_append, List.append_assoc] at heq
  obtain ⟨hname, hrest⟩ := readable_name hp.1 hq.1 (stopsWord_append (by decide) _)
    (stopsWord_append (by decide) _) (List.append_cancel_left heq)
  obtain ⟨hparams, hend⟩ :=
    readable_params hp.2 hq.2 rfl rfl (List.append_cancel_left hrest)
  cases p
  cases q
  exact ⟨Prototype.mk.injEq .. ▸ ⟨hname, hparams⟩, List.append_cancel_left hend⟩

theorem line_succ_ne {depth : Nat} {t u : String} (hu : u.toList.head? ≠ some ' ') :
    line (depth + 1) t ≠ u := by
  intro heq
  rw [← heq, Line.toList_line] at hu
  exact hu rfl

def declarationLines (x : TypedName) : List String :=
  [line 1 (renderTypedName x ++ ";")]

def initialLines (x : String × Literal) : List String :=
  [line 1 (x.1 ++ " = " ++ renderLiteral x.2 ++ ";")]

theorem Struct.lines_eq (s : Struct) :
    s.lines = ("struct " ++ s.name ++ " \x7b") ::
      (s.fields.flatMap declarationLines ++ ["\x7d;"]) := by
  rw [lines, List.map_eq_flatMap]
  rfl

theorem Function.lines_eq (f : Function) :
    f.lines = (f.prototype.render ++ " \x7b") ::
      (paragraph (f.locals.flatMap declarationLines) ++
        (paragraph (f.initials.flatMap initialLines) ++ (Stmt.linesAll 1 f.body ++ ["\x7d"]))) := by
  rw [lines, List.map_eq_flatMap, List.map_eq_flatMap, List.append_assoc, List.append_assoc]
  rfl

theorem readable_declaration :
    Readable (fun x : TypedName => x.printable = true) (fun _ => True) declarationLines := by
  apply readable_singleton
  intro x y hx hy heq
  cases Line.eq_of_line (a := .declaration x) (b := .declaration y) hx hy heq
  rfl

theorem readable_initial :
    Readable (fun x : String × Literal => isName x.1 = true) (fun _ => True) initialLines := by
  apply readable_singleton
  intro x y hx hy heq
  have hline := Line.eq_of_line (a := .initial x.1 x.2) (b := .initial y.1 y.2) hx hy heq
  injection hline with hname hvalue
  exact Prod.ext hname hvalue

theorem readable_struct :
    Readable (·.printable = true) (fun _ => True) fun s : Struct => paragraph s.lines := by
  intro s t hs ht r r' _ _ heq
  rw [Struct.printable, Bool.and_eq_true, List.all_eq_true] at hs ht
  have hfields := readable_declaration.flatMap (fun _ _ _ => trivial)
    (R := (·.head? = some "\x7d;")) fun r hr => ⟨trivial, fun x _ s heq => by
      rw [heq] at hr
      exact line_succ_ne (by decide) (Option.some.inj hr)⟩
  simp only [paragraph_of_ne_nil, Struct.lines_eq, List.cons_append, List.nil_append,
    List.append_assoc, ne_eq, reduceCtorEq, not_false_iff] at heq
  injection heq with hhead htail
  obtain ⟨hfield, hrest⟩ := hfields hs.2 ht.2 rfl rfl htail
  have hchars := congrArg String.toList hhead
  simp only [String.toList_append, List.append_assoc] at hchars
  have hname := readable_name hs.1 ht.1 (stopsWord_cons (c := ' ') (by decide) _)
    (stopsWord_cons (c := ' ') (by decide) _) (List.append_cancel_left hchars)
  cases s
  cases t
  exact ⟨Struct.mk.injEq .. ▸ ⟨hname.1, hfield⟩,
    List.append_cancel_left (show ["\x7d;", ""] ++ r = ["\x7d;", ""] ++ r' from hrest)⟩

theorem readable_locals :
    Readable (fun xs : List TypedName => ∀ x ∈ xs, x.printable = true) (Leads (· ≠ .declaration))
      fun xs => paragraph (xs.flatMap declarationLines) := by
  refine readable_paragraph readable_declaration ?_ ?_
  · intro x _
    exact ⟨_, _, rfl, line_succ_ne (by decide)⟩
  · intro r hr x hx s heq
    exact hr.kind_of_eq (l := .declaration x) hx heq rfl

theorem readable_initials :
    Readable (fun xs : List (String × Literal) => ∀ x ∈ xs, isName x.1 = true)
      (Leads (· ≠ .initial)) fun xs => paragraph (xs.flatMap initialLines) := by
  refine readable_paragraph readable_initial ?_ ?_
  · intro x _
    exact ⟨_, _, rfl, line_succ_ne (by decide)⟩
  · intro r hr x hx s heq
    exact hr.kind_of_eq (l := .initial x.1 x.2) hx heq rfl

theorem leads_initials {xs : List (String × Literal)} (hxs : ∀ x ∈ xs, isName x.1 = true)
    {r : List String} (hr : Leads (· ≠ .declaration) r) :
    Leads (· ≠ .declaration) (paragraph (xs.flatMap initialLines) ++ r) := by
  cases xs with
  | nil => exact hr
  | cons x xs =>
      exact ⟨1, .initial x.1 x.2, _, rfl, hxs x List.mem_cons_self, by simp [Line.kind]⟩

theorem leads_body {K : Line.Kind → Prop} (hK : ∀ s : Stmt, K s.first.kind) (hclose : K .close)
    {body : List Stmt} (h : Stmt.printableAll body = true) (ls : List String) :
    Leads K (Stmt.linesAll 1 body ++ "\x7d" :: ls) :=
  Stmt.leads_linesAll hK h ⟨0, .close, ls, rfl, rfl, hclose⟩

theorem readable_function :
    Readable (·.printable = true) (fun _ => True) fun f : Function => paragraph f.lines := by
  intro f g hf hg r r' _ _ heq
  simp only [Function.printable, Bool.and_eq_true, List.all_eq_true] at hf hg
  obtain ⟨⟨⟨hproto, hlocals⟩, hinitials⟩, hbody⟩ := hf
  obtain ⟨⟨⟨hproto', hlocals'⟩, hinitials'⟩, hbody'⟩ := hg
  simp only [paragraph_of_ne_nil, Function.lines_eq, List.cons_append, List.nil_append,
    List.append_assoc, ne_eq, reduceCtorEq, not_false_iff] at heq
  injection heq with hhead htail
  have hchars := congrArg String.toList hhead
  simp only [String.toList_append] at hchars
  have hprototype := readable_prototype hproto hproto' trivial trivial hchars
  have hkinds (s : Stmt) : s.first.kind ≠ .declaration ∧ s.first.kind ≠ .initial := by
    cases s <;> exact ⟨nofun, nofun⟩
  have hdeclared {body : List Stmt} (h : Stmt.printableAll body = true) (ls : List String) :
      Leads (· ≠ .declaration) (Stmt.linesAll 1 body ++ "\x7d" :: ls) :=
    leads_body (fun s => (hkinds s).1) nofun h ls
  have hinitialized {body : List Stmt} (h : Stmt.printableAll body = true) (ls : List String) :
      Leads (· ≠ .initial) (Stmt.linesAll 1 body ++ "\x7d" :: ls) :=
    leads_body (fun s => (hkinds s).2) nofun h ls
  obtain ⟨hlocal, htail⟩ := readable_locals hlocals hlocals'
    (leads_initials hinitials (hdeclared hbody _)) (leads_initials hinitials' (hdeclared hbody' _))
    htail
  obtain ⟨hinitial, htail⟩ := readable_initials hinitials hinitials'
    (hinitialized hbody _) (hinitialized hbody' _) htail
  obtain ⟨hstmts, hrest⟩ := Stmt.eq_of_linesAll _ _ 1 hbody hbody'
    (endsBlock_close 0 _) (endsBlock_close 0 _) htail
  cases f
  cases g
  exact ⟨Function.mk.injEq .. ▸ ⟨hprototype.1, hlocal, hinitial, hstmts⟩,
    List.append_cancel_left (show ["\x7d", ""] ++ r = ["\x7d", ""] ++ r' from hrest)⟩

/-- The name of a value goes on with a fixed ending, which is a part of the word. -/
theorem readable_valueName :
    Readable (isName · = true) (fun _ => True) fun x => x.toList ++ "__value = ".toList := by
  intro x y hx hy r s _ _ heq
  have hpart {x : String} (hx : isName x = true) :
      ∀ c ∈ x.toList ++ "__value".toList, isWordPart c = true := by
    intro c hc
    rw [List.mem_append] at hc
    cases hc with
    | inl hname => exact isWordPart_of_isWord hx c hname
    | inr hvalue =>
        exact List.all_eq_true.mp (by decide : "__value".toList.all isWordPart = true) c hvalue
  have hsplit (x : String) (r : List Char) : x.toList ++ "__value = ".toList ++ r =
      (x.toList ++ "__value".toList) ++ (" = ".toList ++ r) := by
    rw [show "__value = ".toList = "__value".toList ++ " = ".toList by decide]
    simp only [List.append_assoc]
  dsimp only at heq
  rw [hsplit, hsplit] at heq
  obtain ⟨hname, hrest⟩ := append_inj_of_stop (hpart hx) (hpart hy)
    (stopsWord_append (by decide) _) (stopsWord_append (by decide) _) heq
  exact ⟨String.toList_inj.mp (List.append_cancel_right hname), List.append_cancel_left hrest⟩

theorem readable_global :
    Readable (·.printable = true) (fun _ => True) Global.lines := by
  intro g g' hg hg' r s _ _ heq
  rw [Global.printable, Bool.and_eq_true] at hg hg'
  simp only [Global.lines, List.cons_append, List.nil_append] at heq
  injection heq with hhead htail
  injection htail with _ hend
  have hchars := congrArg String.toList hhead
  simp only [String.toList_append, List.append_assoc] at hchars
  obtain ⟨htype, hrest⟩ :=
    readable_type hg.2 hg'.2 rfl rfl (List.append_cancel_left hchars)
  obtain ⟨hname, hrest⟩ := readable_valueName hg.1 hg'.1 trivial trivial
    (by simpa only [List.append_assoc] using List.append_cancel_left hrest)
  have hvalue := readable_literal trivial trivial rfl rfl hrest
  cases g
  cases g'
  exact ⟨Global.mk.injEq .. ▸ ⟨hname, htype, hvalue.1⟩, hend⟩

theorem Entry.eq_of_lines {e e' : Entry} (he : e.printable = true) (he' : e'.printable = true)
    (h : e.lines = e'.lines) : e = e' := by
  have hvoid (x : String) : x ++ "();" = (Line.call x []).text :=
    String.toList_inj.mp (by simp [Line.text])
  have hresult (x : String) : x ++ "(&result);" = (Line.call x [.addressOf "result"]).text :=
    String.toList_inj.mp (by simp [Line.text, Operand.render])
  have hlocal (t : Ty) : t.render ++ " result;" = (Line.declaration ⟨"result", t⟩).text :=
    String.toList_inj.mp (by simp [Line.text, renderTypedName])
  have hprintable {x : String} (hx : isName x = true) :
      (Line.call x []).printable = true ∧
        (Line.call x [.addressOf "result"]).printable = true := by
    simp only [Line.printable, hx]
    decide
  have htyped {t : Ty} (ht : isName t.name = true) :
      (Line.declaration ⟨"result", t⟩).printable = true := by
    simp only [Line.printable, TypedName.printable, ht]
    decide
  obtain ⟨x, t⟩ := e
  obtain ⟨y, u⟩ := e'
  rw [Entry.printable, Bool.and_eq_true] at he he'
  cases t with
  | none =>
      cases u with
      | none =>
          simp only [Entry.lines, hvoid] at h
          injection h with _ h
          injection h with hcall _
          cases Line.eq_of_line (hprintable he.1).1 (hprintable he'.1).1 hcall
          rfl
      | some u => cases congrArg List.length h
  | some t =>
      cases u with
      | none => cases congrArg List.length h
      | some u =>
          simp only [Entry.lines, hresult, hlocal] at h
          injection h with _ h
          injection h with hdecl h
          injection h with hcall _
          cases Line.eq_of_line (htyped he.2) (htyped he'.2) hdecl
          cases Line.eq_of_line (hprintable he.1).2 (hprintable he'.1).2 hcall
          rfl

/-! Sections. -/

def typedefLines (x : String) : List String :=
  ["typedef struct " ++ x ++ " " ++ x ++ ";"]

def Prototype.lines (p : Prototype) : List String :=
  [p.render ++ ";"]

/-- The word that the first line starts with. -/
def leadingWord (ls : List String) : String :=
  String.ofList ((ls.head?.getD "").toList.takeWhile isWordPart)

theorem leadingWord_cons {w l : String} (hw : isName w = true) (t : String)
    (hl : l = w ++ " " ++ t) (ls : List String) : leadingWord (l :: ls) = w := by
  have htake := takeWhile_append_stop (isWordPart_of_isWord hw)
    (stopsWord_cons (c := ' ') (by decide) t.toList)
  rw [leadingWord, List.head?_cons, Option.getD_some, hl, String.toList_append,
    String.toList_append, List.append_assoc]
  exact (congrArg String.ofList htake).trans String.ofList_toList

theorem leadingWord_entry (e : Entry) : leadingWord e.lines = "int" :=
  leadingWord_cons (by decide) "main() \x7b" (by decide) _

theorem leadingWord_prototype (p : Prototype) (t : String) (ls : List String) :
    leadingWord ((p.render ++ t) :: ls) = "void" := by
  refine leadingWord_cons (by decide)
    (p.name ++ "(" ++ ", ".intercalate (p.params.map renderTypedName) ++ ")" ++ t) ?_ ls
  simp [Prototype.render, ← String.append_assoc]

theorem leadingWord_function (f : Function) (ls : List String) :
    leadingWord (paragraph f.lines ++ ls) = "void" :=
  leadingWord_prototype f.prototype _ _

theorem leadingWord_global (g : Global) (ls : List String) :
    leadingWord (g.lines ++ ls) = "static" :=
  leadingWord_cons (by decide)
    (g.type.render ++ " " ++ g.name ++ "__value = " ++ renderLiteral g.value ++ ";")
    (by simp [← String.append_assoc]) _

theorem leadingWord_struct (s : Struct) (ls : List String) :
    leadingWord (paragraph s.lines ++ ls) = "struct" :=
  leadingWord_cons (by decide) (s.name ++ " \x7b") (by simp [← String.append_assoc]) _

theorem leadingWord_typedef (x : String) (ls : List String) :
    leadingWord (typedefLines x ++ ls) = "typedef" :=
  leadingWord_cons (by decide) ("struct " ++ x ++ " " ++ x ++ ";")
    (by simp [← String.append_assoc]) _

section Section

variable {α : Type} {P : α → Prop} {f : α → List String} {w : String} {ws : List String}

theorem noneAhead_of_leadingWord (hf : ∀ a ls, leadingWord (f a ++ ls) = w) (hw : w ∉ ws)
    {r : List String} (hr : leadingWord r ∈ ws) : NoneAhead P f r := by
  intro a _ s heq
  rw [heq, hf] at hr
  exact hw hr

theorem leadingWord_flatMap (hf : ∀ a ls, leadingWord (f a ++ ls) = w) (as : List α)
    {r : List String} (hr : leadingWord r ∈ ws) : leadingWord (as.flatMap f ++ r) ∈ w :: ws := by
  cases as with
  | nil => exact List.mem_cons_of_mem w hr
  | cons a as =>
      rw [List.flatMap_cons, List.append_assoc, hf]
      exact List.mem_cons_self

theorem leadingWord_paragraph (hf : ∀ a ls, leadingWord (f a ++ ls) = w) (as : List α)
    {r : List String} (hr : leadingWord r ∈ ws) :
    leadingWord (paragraph (as.flatMap f) ++ r) ∈ w :: ws := by
  cases as with
  | nil => exact List.mem_cons_of_mem w hr
  | cons a as =>
      rw [paragraph]
      split
      · exact List.mem_cons_of_mem w hr
      · simp only [List.flatMap_cons, List.append_assoc, hf]
        exact List.mem_cons_self

end Section

theorem readable_typedefs :
    Readable (fun xs : List String => ∀ x ∈ xs, isName x = true)
      (leadingWord · ∈ ["struct", "static", "void", "int"])
      fun xs => paragraph (xs.flatMap typedefLines) := by
  refine readable_paragraph (readable_singleton ?_) ?_ ?_
  · intro x y hx hy heq
    have hchars := congrArg String.toList heq
    simp only [String.toList_append, List.append_assoc] at hchars
    exact (readable_name hx hy (stopsWord_append (by decide) _) (stopsWord_append (by decide) _)
      (List.append_cancel_left hchars)).1
  · intro x _
    exact ⟨_, _, rfl, by simp⟩
  · intro r hr
    exact noneAhead_of_leadingWord leadingWord_typedef (by decide) hr

theorem readable_structs :
    Readable (fun ss : List Struct => ∀ s ∈ ss, s.printable = true)
      (leadingWord · ∈ ["static", "void", "int"]) (List.flatMap (paragraph ·.lines)) := by
  apply readable_struct.flatMap (fun _ _ _ => trivial)
  intro r hr
  exact ⟨trivial, noneAhead_of_leadingWord leadingWord_struct (by decide) hr⟩

theorem readable_globals :
    Readable (fun gs : List Global => ∀ g ∈ gs, g.printable = true)
      (leadingWord · ∈ ["void", "int"]) fun gs => paragraph (gs.flatMap Global.lines) := by
  refine readable_paragraph readable_global ?_ ?_
  · intro g _
    exact ⟨_, _, rfl, by simp⟩
  · intro r hr
    exact noneAhead_of_leadingWord leadingWord_global (by decide) hr

theorem readable_functions :
    Readable (fun fs : List Function => ∀ f ∈ fs, f.printable = true)
      (leadingWord · ∈ ["int"]) (List.flatMap (paragraph ·.lines)) := by
  apply readable_function.flatMap (fun _ _ _ => trivial)
  intro r hr
  exact ⟨trivial, noneAhead_of_leadingWord leadingWord_function (by decide) hr⟩

/-- The lines of a program from the functions on. -/
def Program.linesOfCode (p : Program) : List String :=
  p.functions.flatMap (paragraph ·.lines) ++ p.entry.lines

/-- Prototypes end where a function or the entry starts. -/
theorem readable_prototypes :
    Readable (fun ps : List Prototype => ∀ p ∈ ps, p.printable = true)
      (fun r => ∃ p : Program, (∀ f ∈ p.functions, f.printable = true) ∧ r = p.linesOfCode)
      fun ps => paragraph (ps.flatMap Prototype.lines) := by
  refine readable_paragraph (readable_singleton ?_) ?_ ?_
  · intro p q hp hq heq
    have hchars := congrArg String.toList heq
    simp only [String.toList_append] at hchars
    exact (readable_prototype hp hq trivial trivial hchars).1
  · intro p _
    exact ⟨_, _, rfl, by simp⟩
  · intro r hr p hp s heq
    obtain ⟨q, hfs, rfl⟩ := hr
    rw [Program.linesOfCode] at heq
    cases hq : q.functions with
    | nil =>
        rw [hq] at heq
        have hword : leadingWord q.entry.lines = "void" :=
          (congrArg leadingWord heq).trans (leadingWord_prototype p ";" s)
        rw [leadingWord_entry] at hword
        exact absurd hword (by decide)
    | cons f fs =>
        have hf := hfs f (hq ▸ List.mem_cons_self)
        rw [hq] at heq
        rw [Function.printable, Bool.and_eq_true, Bool.and_eq_true, Bool.and_eq_true] at hf
        injection heq with hhead _
        have hchars := congrArg String.toList hhead
        simp only [String.toList_append] at hchars
        cases (readable_prototype hf.1.1.1 hp trivial trivial hchars).2

theorem Program.lines_eq (p : Program) : p.lines = paragraph opening ++
    (paragraph ((p.structs.map (·.name)).flatMap typedefLines) ++
      (p.structs.flatMap (paragraph ·.lines) ++
        (paragraph (p.globals.flatMap Global.lines) ++
          (paragraph (p.prototypes.flatMap Prototype.lines) ++ p.linesOfCode)))) := by
  rw [List.flatMap_map]
  simp only [lines, linesOfCode, List.append_assoc, List.map_eq_flatMap]
  rfl

theorem Program.eq_of_lines {p q : Program} (hp : p.printable = true) (hq : q.printable = true)
    (h : p.lines = q.lines) : p = q := by
  have hcode (p : Program) : leadingWord p.linesOfCode ∈ ["void", "int"] := by
    apply leadingWord_flatMap leadingWord_function
    rw [leadingWord_entry]
    exact List.mem_singleton_self _
  have hprototypes (p : Program) : leadingWord
      (paragraph (p.prototypes.flatMap Prototype.lines) ++ p.linesOfCode) ∈ ["void", "int"] := by
    have hmem := leadingWord_paragraph (f := Prototype.lines)
      (fun q => leadingWord_prototype q ";") p.prototypes (hcode p)
    simpa using hmem
  have hglobals (p : Program) : leadingWord (paragraph (p.globals.flatMap Global.lines) ++
      (paragraph (p.prototypes.flatMap Prototype.lines) ++ p.linesOfCode)) ∈
        ["static", "void", "int"] :=
    leadingWord_paragraph leadingWord_global _ (hprototypes p)
  have hnames {p : Program} (hss : ∀ s ∈ p.structs, s.printable = true) :
      ∀ x ∈ p.structs.map (·.name), isName x = true := by
    intro x hx
    obtain ⟨s, hs, rfl⟩ := List.mem_map.mp hx
    have hprintable := hss s hs
    rw [Struct.printable, Bool.and_eq_true] at hprintable
    exact hprintable.1
  simp only [Program.printable, Bool.and_eq_true, List.all_eq_true] at hp hq
  obtain ⟨⟨⟨⟨hss, hgs⟩, hps⟩, hfs⟩, he⟩ := hp
  obtain ⟨⟨⟨⟨hss', hgs'⟩, hps'⟩, hfs'⟩, he'⟩ := hq
  rw [lines_eq, lines_eq] at h
  obtain ⟨_, h⟩ := readable_typedefs (hnames hss) (hnames hss')
    (leadingWord_flatMap leadingWord_struct _ (hglobals p))
    (leadingWord_flatMap leadingWord_struct _ (hglobals q)) (List.append_cancel_left h)
  obtain ⟨hstructs, h⟩ := readable_structs hss hss' (hglobals p) (hglobals q) h
  obtain ⟨hglobal, h⟩ := readable_globals hgs hgs' (hprototypes p) (hprototypes q) h
  obtain ⟨hprototype, h⟩ := readable_prototypes hps hps' ⟨p, hfs, rfl⟩ ⟨q, hfs', rfl⟩ h
  obtain ⟨hfunction, h⟩ := readable_functions hfs hfs' (by simp [leadingWord_entry])
    (by simp [leadingWord_entry]) h
  have hentry := Entry.eq_of_lines he he' h
  cases p
  cases q
  exact Program.mk.injEq .. ▸ ⟨hstructs, hglobal, hprototype, hfunction, hentry⟩

/-! Line breaks. -/

theorem oneLine_iff {s : String} : oneLine s = true ↔ '\n' ∉ s.toList := by
  simp [oneLine]

theorem oneLine_append (s t : String) : oneLine (s ++ t) = (oneLine s && oneLine t) := by
  simp [oneLine, Bool.not_or]

theorem oneLine_of_forall {s : String} {p : Char → Bool} (hp : p '\n' = false)
    (h : ∀ c ∈ s.toList, p c = true) : oneLine s = true := by
  rw [oneLine_iff]
  intro hmem
  rw [h _ hmem] at hp
  cases hp

theorem oneLine_of_isName {x : String} (h : isName x = true) : oneLine x = true :=
  oneLine_of_forall (by decide) (isWordPart_of_isWord h)

theorem oneLine_type {t : Ty} (h : isName t.name = true) : oneLine t.render = true := by
  rw [Ty.render]
  split
  · rw [oneLine_append, oneLine_of_isName h]
    rfl
  · exact oneLine_of_isName h

theorem oneLine_typedName {x : TypedName} (h : x.printable = true) :
    oneLine (renderTypedName x) = true := by
  rw [TypedName.printable, Bool.and_eq_true] at h
  rw [renderTypedName, oneLine_append, oneLine_append, oneLine_type h.2, oneLine_of_isName h.1]
  rfl

theorem oneLine_operand {o : Operand} (h : isName o.target = true) : oneLine o.render = true := by
  cases o with
  | name x => exact oneLine_of_isName h
  | addressOf x | deref x =>
      rw [Operand.render, oneLine_append, Bool.and_eq_true]
      exact ⟨rfl, oneLine_of_isName h⟩

theorem oneLine_commas {α : Type} {f : α → String} {as : List α}
    (h : ∀ a ∈ as, oneLine (f a) = true) : oneLine (", ".intercalate (as.map f)) = true := by
  cases as with
  | nil => rfl
  | cons a as =>
      simp only [oneLine_iff] at h ⊢
      rw [toList_commas]
      simp_all

theorem oneLine_literal (v : Literal) : oneLine (renderLiteral v) = true := by
  cases v with
  | int n => exact oneLine_of_forall (by decide) fun _ => isNumberPart_of_mem
  | text x =>
      have hescaped (c : Char) : '\n' ∉ (escapeChar c).toList := by
        simp only [escapeChar]
        split <;> simp_all [eq_comm]
      simp [renderLiteral, literalText, oneLine, String.toList_join, hescaped]

theorem oneLine_line (depth : Nat) (t : String) : oneLine (line depth t) = oneLine t := by
  simp [oneLine, Line.toList_line]

theorem all_oneLine_paragraph (ls : List String) :
    (paragraph ls).all oneLine = ls.all oneLine := by
  rw [paragraph]
  split
  · simp_all
  · simp [oneLine]

theorem oneLine_first {s : Stmt} (h : s.printable = true) : oneLine s.first.text = true := by
  cases s with
  | call f args =>
      rw [Stmt.printable, Bool.and_eq_true, List.all_eq_true] at h
      have hargs := oneLine_commas (f := Operand.render) fun o ho => oneLine_operand (h.2 o ho)
      simp only [Stmt.first, Line.text, oneLine_append, oneLine_of_isName h.1, hargs]
      rfl
  | assign dst src =>
      rw [Stmt.printable, Bool.and_eq_true] at h
      simp only [Stmt.first, Line.text, oneLine_append, oneLine_operand h.1, oneLine_operand h.2]
      rfl
  | branch c yes no =>
      rw [Stmt.printable_branch, Bool.and_eq_true, Bool.and_eq_true] at h
      simp only [Stmt.first, Line.text, oneLine_append, oneLine_operand h.1.1]
      rfl
  | leaveLoopUnless c =>
      rw [Stmt.printable] at h
      simp only [Stmt.first, Line.text, oneLine_append, oneLine_operand h]
      rfl
  | comment text =>
      rw [Stmt.printable] at h
      simp only [Stmt.first, Line.text, oneLine_append, h]
      rfl
  | loop body | leave =>
      simp only [Stmt.first, Line.text]
      decide

mutual

theorem Stmt.oneLine_lines : ∀ (s : Stmt) (depth : Nat), s.printable = true →
    (s.lines depth).all oneLine = true
  | .call _ _, depth, h
  | .assign _ _, depth, h
  | .leave, depth, h
  | .comment _, depth, h => by
      have hfirst := oneLine_first h
      rw [← oneLine_line depth] at hfirst
      exact Bool.and_eq_true_iff.mpr ⟨hfirst, rfl⟩
  | .leaveLoopUnless _, depth, h => by
      have hfirst := oneLine_first h
      rw [← oneLine_line depth] at hfirst
      refine Bool.and_eq_true_iff.mpr ⟨hfirst, ?_⟩
      simp only [List.all_cons, List.all_nil, oneLine_line]
      rfl
  | .loop body, depth, h => by
      have hbody := Stmt.oneLine_linesAll body (depth + 1) h
      simp only [lines, List.cons_append, List.all_cons, List.all_append, List.all_nil,
        oneLine_line, hbody]
      rfl
  | .branch c yes no, depth, h => by
      have hfirst := oneLine_first h
      simp only [printable_branch, Bool.and_eq_true] at h
      have hyes := Stmt.oneLine_linesAll yes (depth + 1) h.1.2
      have hno := Stmt.oneLine_elseLines no depth h.2
      rw [lines_branch, List.all_cons, List.all_append, oneLine_line, hyes, hno]
      exact Bool.and_eq_true_iff.mpr ⟨hfirst, rfl⟩

theorem Stmt.oneLine_linesAll : ∀ (ss : List Stmt) (depth : Nat), Stmt.printableAll ss = true →
    (Stmt.linesAll depth ss).all oneLine = true
  | [], _, _ => rfl
  | s :: ss, depth, h => by
      rw [printableAll, Bool.and_eq_true] at h
      rw [linesAll, List.all_append, Stmt.oneLine_lines s depth h.1,
        Stmt.oneLine_linesAll ss depth h.2]
      rfl

theorem Stmt.oneLine_elseLines : ∀ (no : Option (List Stmt)) (depth : Nat),
    no.all Stmt.printableAll = true → (Stmt.elseLines depth no).all oneLine = true
  | none, depth, _ => by
      simp only [elseLines, List.all_cons, List.all_nil, oneLine_line]
      rfl
  | some no, depth, h => by
      have hno := Stmt.oneLine_linesAll no (depth + 1) h
      simp only [elseLines, List.cons_append, List.all_cons, List.all_append, List.all_nil,
        oneLine_line, hno]
      rfl

end

theorem oneLine_declarations {xs : List TypedName} (h : ∀ x ∈ xs, x.printable = true) :
    (xs.flatMap declarationLines).all oneLine = true := by
  rw [List.all_flatMap, List.all_eq_true]
  intro x hx
  simp only [declarationLines, List.all_cons, List.all_nil, oneLine_line, oneLine_append,
    oneLine_typedName (h x hx)]
  rfl

theorem oneLine_initials {xs : List (String × Literal)} (h : ∀ x ∈ xs, isName x.1 = true) :
    (xs.flatMap initialLines).all oneLine = true := by
  rw [List.all_flatMap, List.all_eq_true]
  intro x hx
  simp only [initialLines, List.all_cons, List.all_nil, oneLine_line, oneLine_append,
    oneLine_of_isName (h x hx), oneLine_literal]
  rfl

theorem Struct.oneLine_lines {s : Struct} (h : s.printable = true) :
    s.lines.all oneLine = true := by
  rw [Struct.printable, Bool.and_eq_true, List.all_eq_true] at h
  simp only [lines_eq, List.all_cons, List.all_append, List.all_nil, oneLine_append,
    oneLine_of_isName h.1, oneLine_declarations h.2]
  rfl

theorem Global.oneLine_lines {g : Global} (h : g.printable = true) :
    g.lines.all oneLine = true := by
  rw [Global.printable, Bool.and_eq_true] at h
  have hpointer : oneLine g.type.pointer.render = true := oneLine_type h.2
  simp only [lines, List.all_cons, List.all_nil, oneLine_append, oneLine_of_isName h.1,
    oneLine_type h.2, hpointer, oneLine_literal]
  rfl

theorem Prototype.oneLine_render {p : Prototype} (h : p.printable = true) :
    oneLine p.render = true := by
  rw [Prototype.printable, Bool.and_eq_true, List.all_eq_true] at h
  have hparams := oneLine_commas (f := renderTypedName) fun x hx => oneLine_typedName (h.2 x hx)
  simp only [render, oneLine_append, oneLine_of_isName h.1, hparams]
  rfl

theorem Function.oneLine_lines {f : Function} (h : f.printable = true) :
    f.lines.all oneLine = true := by
  simp only [Function.printable, Bool.and_eq_true, List.all_eq_true] at h
  obtain ⟨⟨⟨hprototype, hlocals⟩, hinitials⟩, hbody⟩ := h
  simp only [lines_eq, List.all_cons, List.all_append, List.all_nil, all_oneLine_paragraph,
    oneLine_append, Prototype.oneLine_render hprototype, oneLine_declarations hlocals,
    oneLine_initials hinitials, Stmt.oneLine_linesAll _ 1 hbody]
  rfl

theorem Entry.oneLine_lines {e : Entry} (h : e.printable = true) :
    e.lines.all oneLine = true := by
  rw [Entry.printable, Bool.and_eq_true] at h
  cases hresult : e.result with
  | none =>
      simp only [lines, hresult, List.all_cons, List.all_append, List.all_nil, oneLine_line,
        oneLine_append, oneLine_of_isName h.1]
      rfl
  | some t =>
      rw [hresult] at h
      simp only [lines, hresult, List.all_cons, List.all_append, List.all_nil, oneLine_line,
        oneLine_append, oneLine_of_isName h.1, oneLine_type h.2]
      rfl

theorem oneLine_opening : opening.all oneLine = true := by
  decide +kernel

theorem Program.oneLine_lines {p : Program} (h : p.printable = true) :
    p.lines.all oneLine = true := by
  simp only [Program.printable, Bool.and_eq_true, List.all_eq_true] at h
  obtain ⟨⟨⟨⟨hstructs, hglobals⟩, hprototypes⟩, hfunctions⟩, hentry⟩ := h
  have htypedefs : ((p.structs.map (·.name)).flatMap typedefLines).all oneLine = true := by
    rw [List.all_flatMap, List.all_map, List.all_eq_true]
    intro s hs
    have hname := hstructs s hs
    rw [Struct.printable, Bool.and_eq_true] at hname
    simp only [Function.comp_apply, typedefLines, List.all_cons, List.all_nil, oneLine_append,
      oneLine_of_isName hname.1]
    rfl
  have hstruct : (p.structs.flatMap (paragraph ·.lines)).all oneLine = true := by
    simp only [List.all_flatMap, all_oneLine_paragraph]
    exact List.all_eq_true.mpr fun s hs => Struct.oneLine_lines (hstructs s hs)
  have hglobal : (p.globals.flatMap Global.lines).all oneLine = true := by
    rw [List.all_flatMap]
    exact List.all_eq_true.mpr fun g hg => Global.oneLine_lines (hglobals g hg)
  have hprototype : (p.prototypes.flatMap Prototype.lines).all oneLine = true := by
    rw [List.all_flatMap, List.all_eq_true]
    intro q hq
    simp only [Prototype.lines, List.all_cons, List.all_nil, oneLine_append,
      Prototype.oneLine_render (hprototypes q hq)]
    rfl
  have hfunction : (p.functions.flatMap (paragraph ·.lines)).all oneLine = true := by
    simp only [List.all_flatMap, all_oneLine_paragraph]
    exact List.all_eq_true.mpr fun f hf => Function.oneLine_lines (hfunctions f hf)
  simp only [lines_eq, linesOfCode, List.all_append, all_oneLine_paragraph, oneLine_opening,
    htypedefs, hstruct, hglobal, hprototype, hfunction, Entry.oneLine_lines hentry, Bool.and_true]

theorem readable_line :
    Readable (oneLine · = true) (fun _ => True) fun l : String => (l ++ "\n").toList := by
  intro l m hl hm r s _ _ heq
  simp only [String.toList_append, List.append_assoc] at heq
  have hline {l : String} (hl : oneLine l = true) : ∀ c ∈ l.toList, (c != '\n') = true := by
    intro c hc
    rw [bne_iff_ne]
    intro heq
    rw [heq] at hc
    exact oneLine_iff.mp hl hc
  have hstop (r : List Char) : ∀ c, ("\n".toList ++ r).head? = some c → (c != '\n') = false := by
    intro c hc
    cases hc
    rfl
  obtain ⟨hchars, hrest⟩ := append_inj_of_stop (hline hl) (hline hm) (hstop r) (hstop s) heq
  exact ⟨String.toList_inj.mp hchars, List.append_cancel_left hrest⟩

/-- No two printable programs have the same text. -/
theorem Program.render_injective {p q : Program} (hp : p.printable = true)
    (hq : q.printable = true) (h : p.render = q.render) : p = q := by
  have hchars (p : Program) :
      p.render.toList = p.lines.flatMap fun l => (l ++ "\n").toList := by
    simp only [render, String.toList_join, List.flatMap_map]
  have hlines := readable_line.flatMap (fun _ _ _ => trivial) (R := (· = []))
    fun r hr => ⟨trivial, fun l _ s heq => by simp [hr] at heq⟩
  apply Program.eq_of_lines hp hq
  have heq := congrArg String.toList h
  rw [hchars, hchars] at heq
  exact (hlines (List.all_eq_true.mp (oneLine_lines hp)) (List.all_eq_true.mp (oneLine_lines hq))
    rfl rfl (congrArg (· ++ []) heq)).1

def greeting : Program where
  structs := [⟨"Point", [⟨"x", .int⟩]⟩]
  globals := [⟨"hello", .string, .text "\"hi\"\n"⟩]
  prototypes := [⟨"start", []⟩]
  functions :=
    [⟨⟨"start", []⟩, [⟨"p", ⟨"Point", true⟩⟩], [("const_0", .int (-1))],
      [.loop
        [.leaveLoopUnless (.deref "p"),
         .branch (.name "p") [.comment "go on"] (some [.leave])],
       .call "printString" [.name "hello"]]⟩]
  entry := ⟨"start", none⟩

theorem greeting_render_injective :
    greeting.printable = true ∧
      { greeting with prototypes := greeting.functions.map (·.prototype) } = greeting :=
  ⟨by decide +kernel,
    Program.render_injective (by decide +kernel) (by decide +kernel) rfl⟩

end Mis.C
