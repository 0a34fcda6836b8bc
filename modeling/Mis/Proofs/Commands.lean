import Mis.Cli.Run
import Mis.Proofs.Files
import Mis.Proofs.Lexing
import Mis.Proofs.Parsing
import Mis.Proofs.Program

/-!
What a command does to the files. A command writes only if nothing blocks it: its
input is a text that translates, and no stage is to be shown. Then it writes the
C text to its output path once, and nothing to any other place, before the C
compiler starts; that holds in every world that a command can run in. On a file
tree the text is there when writing succeeds, and a front part of it may be left
when it fails. Without an output path a command writes beside its input, and over
its input only if that has the extension of C files already.
-/
namespace Mis.Cli

variable {o : Options} {r : Except Fault ByteArray} {t : FileTree} {source text : String}
  {bytes : ByteArray}

/-! What blocks a command. -/

/-- A stage of the compilation fails. -/
inductive Untranslatable (source : String) : Prop
  | lexing {e : LexError} : lex source = .error e → Untranslatable source
  | parsing {tokens : List (Located Token)} {e : ParseError} :
      lex source = .ok tokens → parse tokens source = .error e → Untranslatable source
  | typing {m : Module NodeId} {e : SemanticError} :
      Mis.read source = .ok m → m.typed m.symbolTable = .error e → Untranslatable source
  | generation {m : Module NodeId} {typed : TypedModule} {e : GenerateError} :
      Mis.read source = .ok m → m.typed m.symbolTable = .ok typed →
      typed.generate m.symbolTable = .error e → Untranslatable source

/-- Why a command that has read `r` ends before it writes: its input is missing or no text, a
stage is to be shown, or the input does not translate. -/
inductive Blocked (o : Options) (r : Except Fault ByteArray) : Prop
  | unreadable : (∀ source : String, r ≠ .ok source.toUTF8) → Blocked o r
  | shows {flag : Flag} : flag ∈ o.flags → flag ≠ .cc → Blocked o r
  | untranslatable {source : String} :
      r = .ok source.toUTF8 → Untranslatable source → Blocked o r

theorem read_eq_ok {m : Module NodeId} :
    Mis.read source = .ok m ↔
      ∃ tokens, lex source = .ok tokens ∧ parse tokens source = .ok m := by
  rw [Mis.read, bind_eq_ok]
  simp only [mapError_eq_ok]

theorem compile_eq_ok :
    compile source = .ok text ↔
      ∃ m program, Mis.read source = .ok m ∧ m.compile = .ok program ∧ text = program.render := by
  rw [compile, bind_eq_ok]
  refine exists_congr fun m => ?_
  rw [bind_eq_ok, ← exists_and_left]
  simp only [Except.ok.injEq, eq_comm]

theorem untranslatable_of_read {e : CompileError} (h : Mis.read source = .error e) :
    Untranslatable source := by
  obtain h | ⟨tokens, hlex, h⟩ := bind_eq_error.mp h
  · obtain ⟨e, h, _⟩ := mapError_eq_error.mp h
    exact .lexing h
  · obtain ⟨e, h, _⟩ := mapError_eq_error.mp h
    exact .parsing (mapError_eq_ok.mp hlex) h

theorem untranslatable_of_compile {e : CompileError} (h : compile source = .error e) :
    Untranslatable source := by
  obtain h | ⟨m, hread, h⟩ := bind_eq_error.mp h
  · exact untranslatable_of_read h
  obtain h | ⟨program, _, h⟩ := bind_eq_error.mp h
  · obtain h | ⟨typed, htyped, h⟩ := bind_eq_error.mp h
    · obtain ⟨e, h, _⟩ := mapError_eq_error.mp h
      exact .typing hread h
    · obtain ⟨e, h, _⟩ := mapError_eq_error.mp h
      exact .generation hread (mapError_eq_ok.mp htyped) h
  · cases h

theorem not_untranslatable (h : compile source = .ok text) : ¬ Untranslatable source := by
  obtain ⟨m, program, hread, hcompile, _⟩ := compile_eq_ok.mp h
  obtain ⟨tokens, hlex, hparse⟩ := read_eq_ok.mp hread
  obtain ⟨typed, htyped, hgenerate⟩ := Module.compile_eq_ok.mp hcompile
  intro hstage
  cases hstage with
  | lexing hfail =>
      rw [hlex] at hfail
      cases hfail
  | parsing hlex' hfail =>
      rw [hlex] at hlex'
      cases hlex'
      rw [hparse] at hfail
      cases hfail
  | typing hread' hfail =>
      rw [hread] at hread'
      cases hread'
      rw [htyped] at hfail
      cases hfail
  | generation hread' htyped' hfail =>
      rw [hread] at hread'
      cases hread'
      rw [htyped] at htyped'
      cases htyped'
      rw [hgenerate] at hfail
      cases hfail

theorem dumpFlag?_eq_none : o.dumpFlag? = none ↔ ∀ flag ∈ o.flags, flag = .cc := by
  simp only [Options.dumpFlag?, List.find?_eq_none, decide_eq_true_eq]
  constructor
  · intro h flag hflag
    cases flag with
    | cc => rfl
    | lex | parse | validate => exact absurd hflag (h _ (by decide))
  · intro h flag hflag hmem
    rw [h flag hmem] at hflag
    exact absurd hflag (by decide)

theorem product_eq_program :
    o.product source = .ok (.program text) ↔
      (∀ flag ∈ o.flags, flag = .cc) ∧ compile source = .ok text := by
  rw [← dumpFlag?_eq_none, Options.product]
  constructor
  · intro h
    cases hflag : o.dumpFlag? with
    | none =>
        rw [hflag] at h
        cases hcompile : compile source with
        | error e =>
            rw [hcompile] at h
            cases h
        | ok c =>
            rw [hcompile] at h
            cases h
            exact ⟨rfl, rfl⟩
    | some flag =>
        rw [hflag] at h
        cases flag with
        | lex => cases hdump : dumpTokens source <;> rw [hdump] at h <;> cases h
        | parse => cases hdump : Mis.read source <;> rw [hdump] at h <;> cases h
        | validate | cc => cases hdump : dumpSymbols source <;> rw [hdump] at h <;> cases h
  · rintro ⟨hflag, hcompile⟩
    rw [hflag, hcompile]
    rfl

/-- A command that nothing blocks has a text to write. -/
theorem not_blocked :
    ¬ Blocked o r ↔ ∃ source text, r = .ok source.toUTF8 ∧
      (∀ flag ∈ o.flags, flag = .cc) ∧ compile source = .ok text := by
  constructor
  · intro h
    have hreads : ∃ source : String, r = .ok source.toUTF8 := by
      by_contra hnone
      exact h (.unreadable fun source hread => hnone ⟨source, hread⟩)
    obtain ⟨source, hread⟩ := hreads
    cases hcompile : compile source with
    | error e => exact absurd (.untranslatable hread (untranslatable_of_compile hcompile)) h
    | ok text =>
        refine ⟨source, text, hread, ?_, hcompile⟩
        intro flag hflag
        by_contra hne
        exact h (.shows hflag hne)
  · intro h hblocked
    obtain ⟨source, text, hread, hflags, hcompile⟩ := h
    cases hblocked with
    | unreadable hnone => exact hnone source hread
    | shows hflag hne => exact hne (hflags _ hflag)
    | untranslatable hread' hstage =>
        rw [hread] at hread'
        have hsource := String.toByteArray_inj.mp (Except.ok.inj hread')
        cases hsource
        exact not_untranslatable hcompile hstage

/-! A run in any world. -/

theorem fromUTF8?_eq_some {bytes : ByteArray} :
    String.fromUTF8? bytes = some source ↔ bytes = source.toUTF8 := by
  rw [String.fromUTF8?]
  split
  · rw [Option.some.injEq, ← String.toByteArray_inj]
    rfl
  · rename_i h
    refine iff_of_false (by simp) ?_
    rintro rfl
    exact h source.isValidUTF8

section Host

variable {m : Type → Type} [Monad m] (host : Host m)

theorem respond_of_blocked (h : Blocked o r) : ∃ outcome, respond host o r = pure outcome := by
  cases r with
  | error fault => exact ⟨_, rfl⟩
  | ok bytes =>
      rw [respond]
      split
      · exact ⟨_, rfl⟩
      rename_i source hsource
      split
      · exact ⟨_, rfl⟩
      rename_i product hproduct
      cases product with
      | dump d => exact ⟨_, rfl⟩
      | program text =>
          obtain ⟨hflags, hcompile⟩ := product_eq_program.mp hproduct
          rw [fromUTF8?_eq_some.mp hsource] at h
          exact absurd h (not_blocked.mpr ⟨source, text, rfl, hflags, hcompile⟩)

theorem respond_of_compile (hflags : ∀ flag ∈ o.flags, flag = .cc)
    (hcompile : compile source = .ok text) :
    respond host o (.ok source.toUTF8) = finish host o (.program text) := by
  have hproduct := product_eq_program.mpr ⟨hflags, hcompile⟩
  have hsource : String.fromUTF8? source.toUTF8 = some source := fromUTF8?_eq_some.mpr rfl
  simp only [respond, hsource, hproduct]

end Host

/-! A run on a file tree. -/

variable {disk : Disk} {cc : Option Compiler}

theorem run_runOptions :
    (runOptions (treeHost disk cc) o).run t =
      (respond (treeHost disk cc) o (t.read o.input)).run t :=
  rfl

theorem runOptions_of_blocked (h : Blocked o (t.read o.input)) :
    ((runOptions (treeHost disk cc) o).run t).2 = t := by
  obtain ⟨outcome, hrespond⟩ := respond_of_blocked (treeHost disk cc) h
  rw [run_runOptions, hrespond]
  rfl

/-- `after` is `before` with `bytes` in the file that `path` names; no other file differs. -/
structure WritesOnly (before after : FileTree) (path : String) (bytes : ByteArray) : Prop where
  content : after.read path = .ok bytes
  others : ∃ place, before.target path = .ok place ∧
    ∀ other, other ≠ place → after.files.get? other = before.files.get? other
  folders : after.folders = before.folders
  working : after.working = before.working

/-- How a command ends once the C file is `written`. The C compiler, if it is asked for, starts
on the tree with that file in it, and nothing is done behind it. -/
inductive Ends (cc : Option Compiler) (o : Options) (written : FileTree) :
    Outcome × FileTree → Prop
  | unasked : .cc ∉ o.flags → Ends cc o written (.finished, written)
  | absent : .cc ∈ o.flags → cc = none →
      Ends cc o written (.failed (.compilerNotStarted .notFound), written)
  | built {c : Compiler} {left : FileTree} : .cc ∈ o.flags → cc = some c →
      c [o.outputPath, "-o", o.executablePath] written = (0, left) →
      Ends cc o written (.finished, left)
  | failed {c : Compiler} {status : Nat} {left : FileTree} : .cc ∈ o.flags → cc = some c →
      c [o.outputPath, "-o", o.executablePath] written = (status, left) → status ≠ 0 →
      Ends cc o written (.failed (.compilerFailed status), left)

theorem writesOnly_put {path : String} {place : Place} {bytes : ByteArray}
    (h : t.target path = .ok place) : WritesOnly t (t.put place bytes) path bytes where
  content := FileTree.read_put_self h
  others := ⟨place, h, fun _ hne => FileTree.get?_put_of_ne hne⟩
  folders := rfl
  working := rfl

theorem WritesOnly.read_other {after : FileTree} {path other : String} {bytes old : ByteArray}
    (h : WritesOnly t after path bytes) (hread : t.read other = .ok old)
    (hne : t.target other ≠ t.target path) : after.read other = .ok old := by
  obtain ⟨place, htarget, hget⟩ := FileTree.read_eq_ok.mp hread
  obtain ⟨written, hwritten, hothers⟩ := h.others
  have hplace : place ≠ written := by
    rintro rfl
    exact hne (htarget.trans hwritten.symm)
  exact FileTree.read_eq_ok.mpr ⟨place, FileTree.target_congr h.folders h.working htarget,
    (hothers place hplace).trans hget⟩

theorem ends_build {written : FileTree} (hasked : .cc ∈ o.flags) :
    Ends cc o written ((build (treeHost disk cc) o).run written) := by
  rw [build, StateT.run_bind]
  cases cc with
  | none => exact .absent hasked rfl
  | some c =>
      cases hstart : c [o.outputPath, "-o", o.executablePath] written with
      | mk status left =>
          have hrun : ((treeHost disk (some c)).startCompiler
              [o.outputPath, "-o", o.executablePath]).run written = pure (.ok status, left) := by
            simp [treeHost, hstart]
          rw [hrun, pure_bind]
          cases status with
          | zero => exact .built hasked rfl hstart
          | succ n => exact .failed hasked rfl hstart (Nat.succ_ne_zero n)

theorem run_write_of_error {path : String} {fault : Fault} {left : FileTree}
    (h : t.write path bytes disk = .error (fault, left)) :
    ((treeHost disk cc).write path bytes).run t = pure (.error fault, left) := by
  simp [treeHost, h]

theorem run_write_of_ok {path : String} {written : FileTree}
    (h : t.write path bytes disk = .ok written) :
    ((treeHost disk cc).write path bytes).run t = pure (.ok (), written) := by
  simp [treeHost, h]

theorem finish_of_error {fault : Fault} {left : FileTree}
    (h : t.write o.outputPath text.toUTF8 disk = .error (fault, left)) :
    (finish (treeHost disk cc) o (.program text)).run t =
      (.failed (.unwritable o.outputPath fault), left) := by
  rw [finish, StateT.run_bind, run_write_of_error h]
  rfl

theorem ends_of_write {written : FileTree}
    (h : t.write o.outputPath text.toUTF8 disk = .ok written) :
    Ends cc o written ((finish (treeHost disk cc) o (.program text)).run t) := by
  rw [finish, StateT.run_bind, run_write_of_ok h]
  simp only [pure_bind]
  split
  · rename_i hasked
    exact ends_build hasked
  · rename_i hasked
    exact .unasked hasked

theorem Ends.read {written : FileTree} {result : Outcome × FileTree} {path : String}
    (h : Ends cc o written result)
    (hcc : ∀ c ∈ cc, ∀ args t, (c args t).2.read path = t.read path) :
    result.2.read path = written.read path := by
  cases h with
  | unasked _ | absent _ _ => rfl
  | built _ hc hstart | failed _ hc hstart _ =>
      have hkept := hcc _ hc [o.outputPath, "-o", o.executablePath] written
      rwa [hstart] at hkept

/-! The output. -/

/-- How a command that nothing blocks ends, where `text` is the C text of its input: the output
cannot be opened, writing breaks off, or all of the text is written. -/
inductive Finishes (disk : Disk) (cc : Option Compiler) (o : Options) (t : FileTree)
    (text : String) : Outcome × FileTree → Prop
  | unopened {fault : Fault} : ¬ t.Opens disk o.outputPath →
      Finishes disk cc o t text (.failed (.unwritable o.outputPath fault), t)
  | brokenOff {place : Place} {length : Nat} {fault : Fault} {left : FileTree} :
      t.Opens disk o.outputPath → t.target o.outputPath = .ok place →
      disk.writing t place text.toUTF8 = some (length, fault) →
      WritesOnly t left o.outputPath (text.toUTF8.extract 0 length) →
      Finishes disk cc o t text (.failed (.unwritable o.outputPath fault), left)
  | written {after : FileTree} {result : Outcome × FileTree} :
      t.Opens disk o.outputPath → WritesOnly t after o.outputPath text.toUTF8 →
      Ends cc o after result → Finishes disk cc o t text result

theorem finishes_runOptions (disk : Disk) (cc : Option Compiler)
    (h : ¬ Blocked o (t.read o.input)) :
    ∃ source text, t.read o.input = .ok source.toUTF8 ∧ compile source = .ok text ∧
      Finishes disk cc o t text ((runOptions (treeHost disk cc) o).run t) := by
  obtain ⟨source, text, hread, hflags, hcompile⟩ := not_blocked.mp h
  refine ⟨source, text, hread, hcompile, ?_⟩
  rw [run_runOptions, hread, respond_of_compile _ hflags hcompile]
  have hwrites := FileTree.writes_write disk t o.outputPath text.toUTF8
  generalize hwrite : t.write o.outputPath text.toUTF8 disk = result at hwrites
  cases hwrites with
  | unopened hunopened =>
      rw [finish_of_error hwrite]
      exact .unopened hunopened
  | brokenOff htarget hopening hbroken =>
      rw [finish_of_error hwrite]
      exact .brokenOff ⟨_, htarget, hopening⟩ htarget hbroken (writesOnly_put htarget)
  | done htarget hopening _ =>
      exact .written ⟨_, htarget, hopening⟩ (writesOnly_put htarget) (ends_of_write hwrite)

/-- A program that does nothing. -/
def idle : String := "func start() \x7b\x7d"

/-- A folder with nothing in it but that program. -/
def folderWith (name : String) : FileTree where
  folders := []
  files := ⟨[([name], idle.toUTF8)]⟩
  working := []

theorem idle_compiles : ∃ text, compile idle = .ok text :=
  exists_eq_ok (by decide +kernel)

/-- What every C text starts with. -/
def heading : List Char := "#include <stdio.h>\n\n".toList ++ ("typedef".toList ++ [' '])

theorem heading_append (rest : List Char) :
    heading ++ rest = "#include <stdio.h>\n\n".toList ++ ("typedef".toList ++ ' ' :: rest) := by
  unfold heading
  rw [List.append_assoc, List.append_assoc]
  rfl

theorem toList_render (p : C.Program) : ∃ rest, p.render.toList = heading ++ rest := by
  have hlines : ∃ ls, p.lines = "#include <stdio.h>" :: "" :: "typedef long long Int;" :: ls :=
    ⟨_, rfl⟩
  obtain ⟨ls, hlines⟩ := hlines
  simp only [heading_append]
  rw [C.Program.render, hlines]
  simp

/-- Behind a comment the first word is one that starts no declaration. -/
theorem read_ne_ok_of_heading {rest : List Char} (h : source.toList = heading ++ rest)
    (m : Module NodeId) : Mis.read source ≠ .ok m := by
  intro hread
  obtain ⟨tokens, hlex, hparse⟩ := read_eq_ok.mp hread
  have hends : ∀ d, (' ' :: rest).head? = some d → isWordPart d = false := by
    rintro d ⟨⟩
    decide
  obtain ⟨c, cs, hword, hscan⟩ := @Token.scan_word "typedef" _ (by decide) hends
  have hgap : dropGap false source.toList = c :: (cs ++ ' ' :: rest) := by
    rw [h, heading_append, ← List.cons_append, ← hword]
    rfl
  rw [lex_eq_ok_iff, lexFrom_cons hgap hscan] at hlex
  obtain ⟨more, _, hlex⟩ := bind_eq_ok.mp hlex
  cases hlex
  obtain ⟨tree, ⟨is, ds, heq, himports, hdecls⟩, _⟩ := parse_eq_ok_iff.mp hparse
  generalize tree.imports = names at himports
  cases himports with
  | cons x _ _ => cases heq
  | nil =>
      have hhead : ds.head? = some (Token.ofWord "typedef") := by
        rw [← List.nil_append ds, ← heq]
        rfl
      exact absurd (hdecls.startsDecl hhead) (by decide)

/-- A text that ends within the heading is a comment and at most one word. -/
theorem compile_take_heading : ∀ n < heading.length,
    (compile (String.ofList (heading.take n))).toOption.isSome = false := by
  decide +kernel

/-- A C text is no source, and no front part of one is. -/
theorem compile_front_ne_ok (p : C.Program) (h : source.toList <+: p.render.toList) :
    compile source ≠ .ok text := by
  intro hcompile
  obtain ⟨rest, hrest⟩ := toList_render p
  rw [hrest, List.prefix_iff_eq_take] at h
  by_cases hshort : source.toList.length < heading.length
  · rw [List.take_append_of_le_length (Nat.le_of_lt hshort)] at h
    have hfails := compile_take_heading _ hshort
    rw [← h, String.ofList_toList, hcompile] at hfails
    cases hfails
  · rw [List.take_append, List.take_of_length_le (Nat.not_lt.mp hshort)] at h
    obtain ⟨m, _, hread, _⟩ := compile_eq_ok.mp hcompile
    exact read_ne_ok_of_heading h m hread

theorem extract_append_rest (bytes : ByteArray) (length : Nat) :
    bytes.extract 0 length ++ bytes.extract length bytes.size = bytes := by
  ext1
  simp

/-- What is left where writing the C text of a source breaks off is not that source. -/
theorem toUTF8_ne_extract (h : compile source = .ok text) (length : Nat) :
    text.toUTF8.extract 0 length ≠ source.toUTF8 := by
  intro hfront
  obtain ⟨m, program, _, _, rfl⟩ := compile_eq_ok.mp h
  refine compile_front_ne_ok program ?_ h
  have hjoin := extract_append_rest program.render.toUTF8 length
  rw [hfront] at hjoin
  apply List.isPrefix_of_utf8Encode_append_eq_utf8Encode
  rw [String.utf8Encode_toList, String.utf8Encode_toList]
  exact hjoin

theorem toUTF8_ne (h : compile source = .ok text) : text.toUTF8 ≠ source.toUTF8 := by
  have hwhole := toUTF8_ne_extract h text.toUTF8.size
  rwa [ByteArray.extract_zero_size] at hwhole

section Input

variable (disk) (cc) (hout : o.output = none)
  (hcc : ∀ c ∈ cc, ∀ args t, (c args t).2.read o.input = t.read o.input)

include hout

theorem outputPath_eq_input (hext : HasExtension o.input "c") (hread : t.read o.input = .ok bytes) :
    o.outputPath = o.input := by
  obtain ⟨place, htarget, _⟩ := FileTree.read_eq_ok.mp hread
  rw [Options.outputPath, hout, Option.getD_none]
  exact (withExtension_eq_self_iff (FileTree.isPlain_baseName htarget) (by decide)
    (by decide)).mpr hext

theorem target_outputPath_ne (hext : ¬ HasExtension o.input "c")
    (hread : t.read o.input = .ok bytes) : t.target o.input ≠ t.target o.outputPath := by
  intro hsame
  obtain ⟨place, htarget, _⟩ := FileTree.read_eq_ok.mp hread
  rw [Options.outputPath, hout, Option.getD_none, htarget] at hsame
  exact hext ((FileTree.target_withExtension_eq_iff (by decide) (by decide) (by decide)
    htarget).mp hsame.symm)

theorem read_runOptions_of_not_opens (hext : HasExtension o.input "c")
    (hopens : ¬ t.Opens disk o.input) :
    ((runOptions (treeHost disk cc) o).run t).2.read o.input = t.read o.input := by
  by_cases h : Blocked o (t.read o.input)
  · rw [runOptions_of_blocked h]
  obtain ⟨source, text, hread, _, hfinishes⟩ := finishes_runOptions disk cc h
  have hsame := outputPath_eq_input hout hext hread
  generalize StateT.run _ _ = result at hfinishes
  cases hfinishes with
  | unopened _ => rfl
  | brokenOff hopened _ _ _ | written hopened _ _ => exact absurd (hsame ▸ hopened) hopens

include hcc

theorem read_runOptions_of_not_hasExtension (hext : ¬ HasExtension o.input "c") :
    ((runOptions (treeHost disk cc) o).run t).2.read o.input = t.read o.input := by
  by_cases h : Blocked o (t.read o.input)
  · rw [runOptions_of_blocked h]
  obtain ⟨source, text, hread, _, hfinishes⟩ := finishes_runOptions disk cc h
  have hother := target_outputPath_ne hout hext hread
  generalize StateT.run _ _ = result at hfinishes
  cases hfinishes with
  | unopened _ => rfl
  | brokenOff _ _ _ hleft => rw [hread, hleft.read_other hread hother]
  | written _ hafter hends => rw [hends.read hcc, hread, hafter.read_other hread hother]

/-- A source that is its own output is overwritten, if it can be opened. -/
theorem read_runOptions_of_hasExtension (hext : HasExtension o.input "c")
    (h : ¬ Blocked o (t.read o.input)) (hopens : t.Opens disk o.input) :
    ∃ source text bytes, t.read o.input = .ok source.toUTF8 ∧ compile source = .ok text ∧
      ((runOptions (treeHost disk cc) o).run t).2.read o.input = .ok bytes ∧
      (bytes = text.toUTF8 ∨ ∃ place length fault,
        disk.writing t place text.toUTF8 = some (length, fault) ∧
        bytes = text.toUTF8.extract 0 length) := by
  obtain ⟨source, text, hread, hcompile, hfinishes⟩ := finishes_runOptions disk cc h
  have hsame := outputPath_eq_input hout hext hread
  generalize StateT.run _ _ = result at hfinishes ⊢
  cases hfinishes with
  | unopened hunopened => exact absurd (hsame ▸ hopens) hunopened
  | brokenOff _ _ hbroken hleft =>
      exact ⟨source, text, _, hread, hcompile, hsame ▸ hleft.content,
        .inr ⟨_, _, _, hbroken, rfl⟩⟩
  | written _ hafter hends =>
      exact ⟨source, text, _, hread, hcompile, (hends.read hcc).trans (hsame ▸ hafter.content),
        .inl rfl⟩

end Input

/-- Without an output path a command leaves its input as it was, unless that has the extension
of C files, which makes it the output, nothing blocks the command and the file can be opened. Then
the input is overwritten with its C text, or with a front part of it where writing breaks off. -/
theorem runOptions_keeps_input_iff (disk : Disk) (cc : Option Compiler) (t : FileTree)
    {o : Options} (hout : o.output = none)
    (hcc : ∀ c ∈ cc, ∀ args t, (c args t).2.read o.input = t.read o.input) :
    (((runOptions (treeHost disk cc) o).run t).2.read o.input = t.read o.input ↔
      (HasExtension o.input "c" → Blocked o (t.read o.input) ∨ ¬ t.Opens disk o.input)) ∧
    (HasExtension o.input "c" → ¬ Blocked o (t.read o.input) → t.Opens disk o.input →
      ∃ source text bytes, t.read o.input = .ok source.toUTF8 ∧ compile source = .ok text ∧
        ((runOptions (treeHost disk cc) o).run t).2.read o.input = .ok bytes ∧
        (bytes = text.toUTF8 ∨ ∃ place length fault,
          disk.writing t place text.toUTF8 = some (length, fault) ∧
          bytes = text.toUTF8.extract 0 length)) := by
  refine ⟨⟨?_, ?_⟩, read_runOptions_of_hasExtension disk cc hout hcc⟩
  · intro hkept hext
    by_contra h
    rw [not_or, not_not] at h
    obtain ⟨source, text, bytes, hread, hcompile, hafter, hbytes⟩ :=
      read_runOptions_of_hasExtension disk cc hout hcc hext h.1 h.2
    rw [hafter, hread, Except.ok.injEq] at hkept
    obtain rfl | ⟨_, length, _, _, rfl⟩ := hbytes
    · exact toUTF8_ne hcompile hkept
    · exact toUTF8_ne_extract hcompile length hkept
  · intro h
    by_cases hext : HasExtension o.input "c"
    · obtain hblocked | hopens := h hext
      · rw [runOptions_of_blocked hblocked]
      · exact read_runOptions_of_not_opens disk cc hout hext hopens
    · exact read_runOptions_of_not_hasExtension disk cc hout hcc hext

/-- A source with another extension stays. -/
theorem sourceNamedMis_kept :
    ¬ HasExtension "a.mis" "c" ∧
      ((runOptions (treeHost .sound none) ⟨"a.mis", none, []⟩).run (folderWith "a.mis")).2.read
          "a.mis" = (folderWith "a.mis").read "a.mis" := by
  have hext : ¬ HasExtension "a.mis" "c" := by
    rintro ⟨base, _, _, hlast⟩
    have hname : (pathParts "a.mis").getLast? = some "a.mis" := by rfl
    rw [hname, Option.some.injEq] at hlast
    have hend := congrArg (fun name => name.toList.getLast?) hlast
    simp at hend
  exact ⟨hext, (runOptions_keeps_input_iff .sound none _ rfl (by simp)).1.mpr
    fun h => absurd h hext⟩

/-- A source that has the extension of C files is lost. -/
theorem sourceNamedC_lost :
    ((runOptions (treeHost .sound none) ⟨"x.c", none, []⟩).run (folderWith "x.c")).2.read "x.c" ≠
      (folderWith "x.c").read "x.c" := by
  have hinput : (folderWith "x.c").read "x.c" = .ok idle.toUTF8 := by decide +kernel
  have houtput : (folderWith "x.c").target "x.c" = .ok ["x.c"] := by decide +kernel
  have hext : HasExtension "x.c" "c" := ⟨"x", by decide, by decide, by rfl⟩
  obtain ⟨_, hcompile⟩ := idle_compiles
  intro hkept
  obtain ⟨source, text, bytes, hread, hcompile, hafter, hbytes⟩ :=
    read_runOptions_of_hasExtension .sound none (o := ⟨"x.c", none, []⟩) rfl (by simp) hext
      (not_blocked.mpr ⟨_, _, hinput, by simp, hcompile⟩) ⟨_, houtput, rfl⟩
  rw [hafter, hread, Except.ok.injEq] at hkept
  obtain rfl | ⟨_, _, _, hbroken, _⟩ := hbytes
  · exact toUTF8_ne hcompile hkept
  · cases hbroken

end Mis.Cli
