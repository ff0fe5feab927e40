import DefLang.Command.Run
import Mathlib.Data.List.Nodup

/-!
# Order and spelling of arguments

A command line consists of clauses, each of which settles one topic: an option with its value in one
argument or in two, a switch, or a file, which may also stand at the end behind `--`. Reading the
arguments adds the clauses one by one to what is settled, and refuses a clause about a topic that is
settled already.

Clauses about different topics do not get in each other's way. So a command line in which no topic
comes twice means the same in every order and spelling, and any other command line is refused.
-/

namespace DefLang.Command

/-- A text that is taken for a file: a hyphen alone, or a text that does not begin with one. -/
structure FileName where
  text : String
  isFile : text = "-" ∨ text ≠ "" ∧ text.toList.head? ≠ some '-'

def Setting.values : Setting → List String
  | dialect => ["def", "act"]
  | stage => ["tokens", "ast", "output"]

/-- A part of a command line that settles one topic. -/
inductive Clause where
  | setting (s : Setting) (value : String) (legal : value ∈ s.values)
  | strict
  | file (name : FileName)

/-- Whether an option and its value are two arguments or one. -/
inductive Spelling where
  | apart
  | joined

namespace Clause

inductive Topic where
  | setting (s : Setting)
  | strict
  | file

def topic : Clause → Topic
  | setting s _ _ => .setting s
  | strict => .strict
  | file _ => .file

def arguments (spelling : Spelling) : Clause → List String
  | setting s value _ =>
    match spelling with
    | .apart => ["--" ++ s.name, value]
    | .joined => ["--" ++ s.name ++ "=" ++ value]
  | strict => ["--strict"]
  | file name => [name.text]

def add (given : Given) : Clause → Except UsageError Given
  | setting s value _ => s.add given value
  | strict => given.addStrict
  | file name => given.addFile name.text

end Clause

theorem Shape.of_option (s : Setting) : Shape.of ("--" ++ s.name) = .long s.name none := by
  cases s <;> rfl

theorem Shape.of_option_value (s : Setting) (value : String) :
    Shape.of ("--" ++ s.name ++ "=" ++ value) = .long s.name (some value) := by
  cases s <;> simp [Shape.of, Setting.name]

theorem Shape.of_plain {text : String} (h : text.toList.head? ≠ some '-') :
    Shape.of text = .plain := by
  unfold Shape.of
  split <;> simp_all

theorem FileName.shape_eq (name : FileName) : Shape.of name.text = .plain := by
  rcases name.isFile with h | ⟨-, h⟩
  · rw [h]
    rfl
  · exact Shape.of_plain h

theorem FileName.isEmpty_eq (name : FileName) : name.text.isEmpty = false := by
  rcases name.isFile with h | ⟨h, -⟩
  · rw [h]
    rfl
  · simpa using h

theorem Setting.shape_eq {s : Setting} {value : String} (h : value ∈ s.values) :
    Shape.of value = .plain := by
  have hvalues : ∀ v ∈ s.values, v.toList.head? ≠ some '-' := by
    cases s <;> decide
  exact Shape.of_plain (hvalues value h)

section Read

variable {given : Given} {rest : List String}

theorem readArguments_plain {argument : String} (h : Shape.of argument = .plain) :
    readArguments given (argument :: rest) =
      given.addFile argument >>= fun given => readArguments given rest := by
  rw [readArguments, h]

theorem readArguments_option {argument value : String} {s : Setting}
    (h : Shape.of argument = .long s.name none) (hvalue : Shape.of value = .plain) :
    readArguments given (argument :: value :: rest) =
      s.add given value >>= fun given => readArguments given rest := by
  cases s <;> simp [readArguments, h, Setting.name, Setting.ofName?, hvalue]

theorem readArguments_option_value {argument value : String} {s : Setting}
    (h : Shape.of argument = .long s.name (some value)) :
    readArguments given (argument :: rest) =
      s.add given value >>= fun given => readArguments given rest := by
  cases s <;> simp [readArguments, h, Setting.name, Setting.ofName?]

theorem readArguments_strict :
    readArguments given ("--strict" :: rest) =
      given.addStrict >>= fun given => readArguments given rest := by
  have hshape : Shape.of "--strict" = .long "strict" none := rfl
  simp [readArguments, hshape]

theorem readArguments_clause (spelling : Spelling) (clause : Clause) :
    readArguments given (clause.arguments spelling ++ rest) =
      clause.add given >>= fun given => readArguments given rest := by
  cases clause with
  | setting s value legal =>
    cases spelling with
    | apart => exact readArguments_option (Shape.of_option s) (Setting.shape_eq legal)
    | joined => exact readArguments_option_value (Shape.of_option_value s value)
  | strict => exact readArguments_strict
  | file name => exact readArguments_plain name.shape_eq

theorem readArguments_clauses (clauses : List (Spelling × Clause)) :
    readArguments given (clauses.flatMap (fun c => c.2.arguments c.1) ++ rest) =
      (clauses.map Prod.snd).foldlM Clause.add given >>= fun given => readArguments given rest := by
  induction clauses generalizing given with
  | nil => rfl
  | cons c clauses ih =>
    rw [List.flatMap_cons, List.append_assoc, readArguments_clause, List.map_cons,
      List.foldlM_cons, bind_assoc]
    exact congrArg (c.2.add given >>= ·) (funext fun given => ih)

end Read

namespace Given

def settled (given : Given) : Clause.Topic → Bool
  | .setting .dialect => given.dialect?.isSome
  | .setting .stage => given.stage?.isSome
  | .strict => given.strict
  | .file => given.file?.isSome

/-- What is settled with a clause, when nothing was settled about its topic. -/
def settle (given : Given) : Clause → Given
  | .setting .dialect value _ => { given with dialect? := Setting.dialectOfName? value }
  | .setting .stage value _ => { given with stage? := Setting.stageOfName? value }
  | .strict => { given with strict := true }
  | .file name => { given with file? := some name.text }

variable {given : Given} {clause clause' : Clause}

theorem exists_of_legal {value : String} :
    (value ∈ Setting.dialect.values → ∃ d, Setting.dialectOfName? value = some d) ∧
      (value ∈ Setting.stage.values → ∃ s, Setting.stageOfName? value = some s) := by
  have hdialects : ∀ v ∈ Setting.dialect.values, (Setting.dialectOfName? v).isSome = true := by
    decide
  have hstages : ∀ v ∈ Setting.stage.values, (Setting.stageOfName? v).isSome = true := by
    decide
  exact ⟨fun h => Option.isSome_iff_exists.1 (hdialects value h),
    fun h => Option.isSome_iff_exists.1 (hstages value h)⟩

theorem add_of_settled (h : given.settled clause.topic = true) :
    ∃ e, clause.add given = .error e := by
  cases clause with
  | setting s value legal =>
    cases s with
    | dialect =>
      obtain ⟨d, hd⟩ := Option.isSome_iff_exists.1 h
      exact ⟨_, by rw [Clause.add, Setting.add, hd]⟩
    | stage =>
      obtain ⟨s, hs⟩ := Option.isSome_iff_exists.1 h
      exact ⟨_, by rw [Clause.add, Setting.add, hs]⟩
  | strict => exact ⟨_, if_pos h⟩
  | file name => exact ⟨_, if_pos h⟩

theorem add_of_not_settled (h : given.settled clause.topic = false) :
    clause.add given = .ok (given.settle clause) := by
  cases clause with
  | setting s value legal =>
    cases s with
    | dialect =>
      have hfree : given.dialect? = none := by simpa [settled, Clause.topic] using h
      obtain ⟨d, hd⟩ := exists_of_legal.1 legal
      rw [Clause.add, Setting.add, hfree, hd, settle, hd]
    | stage =>
      have hfree : given.stage? = none := by simpa [settled, Clause.topic] using h
      obtain ⟨s, hs⟩ := exists_of_legal.2 legal
      rw [Clause.add, Setting.add, hfree, hs, settle, hs]
  | strict =>
    have hfree : given.strict = false := h
    simp [Clause.add, addStrict, hfree, settle]
  | file name =>
    have hfree : given.file? = none := by simpa [settled, Clause.topic] using h
    simp [Clause.add, addFile, hfree, name.isEmpty_eq, settle]

theorem settled_settle_self : (given.settle clause).settled clause.topic = true := by
  cases clause with
  | setting s value legal =>
    cases s with
    | dialect => exact Option.isSome_iff_exists.2 (exists_of_legal.1 legal)
    | stage => exact Option.isSome_iff_exists.2 (exists_of_legal.2 legal)
  | strict => rfl
  | file name => rfl

theorem settled_settle_of_ne {topic : Clause.Topic} (h : topic ≠ clause.topic) :
    (given.settle clause).settled topic = given.settled topic := by
  rcases clause with ⟨_ | _, value, legal⟩ | _ | name <;> rcases topic with (_ | _) | _ | _ <;>
    simp_all [settle, settled, Clause.topic]

theorem settle_comm (h : clause.topic ≠ clause'.topic) :
    (given.settle clause).settle clause' = (given.settle clause').settle clause := by
  rcases clause with ⟨_ | _, _, _⟩ | _ | _ <;> rcases clause' with ⟨_ | _, _, _⟩ | _ | _ <;>
    simp_all [settle, Clause.topic]

end Given

open Clause (topic)

/-- Clauses about different topics are added in any case. -/
theorem foldlM_add_eq_ok {given : Given} {clauses : List Clause}
    (hnodup : (clauses.map topic).Nodup) (hfree : ∀ c ∈ clauses, given.settled c.topic = false) :
    clauses.foldlM Clause.add given = .ok (clauses.foldl Given.settle given) := by
  induction clauses generalizing given with
  | nil => rfl
  | cons c clauses ih =>
    obtain ⟨hc, hnodup⟩ := List.nodup_cons.1 hnodup
    rw [List.foldlM_cons, Given.add_of_not_settled (hfree c List.mem_cons_self), ok_bind]
    apply ih hnodup
    intro c' hc'
    have hne : c'.topic ≠ c.topic := fun heq => hc (heq ▸ List.mem_map_of_mem hc')
    rw [Given.settled_settle_of_ne hne]
    exact hfree c' (List.mem_cons_of_mem c hc')

theorem nodup_of_foldlM_add {given given' : Given} {clauses : List Clause}
    (h : clauses.foldlM Clause.add given = .ok given') :
    (clauses.map topic).Nodup ∧ ∀ c ∈ clauses, given.settled c.topic = false := by
  induction clauses generalizing given with
  | nil => simp
  | cons c clauses ih =>
    rw [List.foldlM_cons] at h
    cases hc : given.settled c.topic with
    | true =>
      obtain ⟨e, he⟩ := Given.add_of_settled hc
      rw [he] at h
      cases h
    | false =>
      rw [Given.add_of_not_settled hc, ok_bind] at h
      obtain ⟨hnodup, hfree⟩ := ih h
      have hne : ∀ c' ∈ clauses, c'.topic ≠ c.topic := by
        intro c' hc' heq
        have hsettled := hfree c' hc'
        rw [heq, Given.settled_settle_self] at hsettled
        cases hsettled
      constructor
      · refine List.nodup_cons.2 ⟨fun hmem => ?_, hnodup⟩
        obtain ⟨c', hc', heq⟩ := List.mem_map.1 hmem
        exact hne c' hc' heq
      · refine List.forall_mem_cons.2 ⟨hc, fun c' hc' => ?_⟩
        rw [← Given.settled_settle_of_ne (hne c' hc')]
        exact hfree c' hc'

/-- The order in which clauses are added does not matter. -/
theorem foldl_settle_of_perm {clauses clauses' : List Clause} (h : clauses.Perm clauses')
    (hnodup : (clauses.map topic).Nodup) (given : Given) :
    clauses.foldl Given.settle given = clauses'.foldl Given.settle given := by
  apply h.foldl_eq'
  intro c hc c' hc' given
  by_cases heq : c.topic = c'.topic
  · -- Two of the clauses about one topic are one and the same.
    rw [List.inj_on_of_nodup_map hnodup hc hc' heq]
  · exact Given.settle_comm heq

/-- Clauses in a row, each in its spelling, and maybe a file behind `--`. -/
structure CommandLine where
  clauses : List (Spelling × Clause)
  last? : Option FileName

namespace CommandLine

def content (line : CommandLine) : List Clause :=
  line.clauses.map Prod.snd ++ (line.last?.map Clause.file).toList

def arguments (line : CommandLine) : List String :=
  line.clauses.flatMap (fun c => c.2.arguments c.1) ++
    (line.last?.map fun name => ["--", name.text]).getD []

theorem readArguments_arguments (line : CommandLine) (given : Given) :
    readArguments given line.arguments =
      (line.content.foldlM Clause.add given).map (Request.compile ·.job) := by
  rw [arguments, readArguments_clauses, content, List.foldlM_append]
  cases (line.clauses.map Prod.snd).foldlM Clause.add given with
  | error e => rfl
  | ok given' =>
    cases line.last? with
    | none => rfl
    | some name => rfl

theorem ofArguments_eq_of_perm {line line' : CommandLine} (h : line.content.Perm line'.content)
    (hnodup : (line.content.map topic).Nodup) :
    Request.ofArguments line.arguments = Request.ofArguments line'.arguments := by
  have hnodup' : (line'.content.map topic).Nodup := (h.map topic).nodup_iff.1 hnodup
  have hfree (c : Clause) : Given.settled {} c.topic = false := by
    rcases c with ⟨_ | _, _, _⟩ | _ | _ <;> rfl
  rw [Request.ofArguments, Request.ofArguments, readArguments_arguments, readArguments_arguments,
    foldlM_add_eq_ok hnodup fun c _ => hfree c, foldlM_add_eq_ok hnodup' fun c _ => hfree c,
    foldl_settle_of_perm h hnodup]

theorem exists_error_of_not_nodup {line : CommandLine} (h : ¬ (line.content.map topic).Nodup) :
    ∃ e, Request.ofArguments line.arguments = .error e := by
  rw [Request.ofArguments, readArguments_arguments]
  cases hadd : line.content.foldlM Clause.add {} with
  | error e => exact ⟨e, rfl⟩
  | ok given => exact absurd (nodup_of_foldlM_add hadd).1 h

end CommandLine

/-- The outcome does not depend on the order of the clauses, on their spelling, or on whether the
file stands behind `--`. A second clause about a topic, wherever it is put in, is a usage error: a
copy of the first, and also one with another value. -/
theorem runIn_order_independent (dir : Directory) (color : Bool) :
    (∀ line line' : CommandLine, (line.content.map topic).Nodup →
      line.content.Perm line'.content →
        runIn dir color line.arguments = runIn dir color line'.arguments) ∧
    ∀ (before after : List (Spelling × Clause)) (last? : Option FileName) (spelling : Spelling)
      (clause : Clause),
      clause.topic ∈ (CommandLine.content ⟨before ++ after, last?⟩).map topic →
        ∃ e : UsageError, runIn dir color
          (CommandLine.arguments ⟨before ++ (spelling, clause) :: after, last?⟩) =
            .failure color 2 e.message := by
  constructor
  · intro line line' hnodup hperm
    rw [runIn, runIn, run, run, CommandLine.ofArguments_eq_of_perm hperm hnodup]
  · intro before after last? spelling clause hmem
    have hperm : (CommandLine.content ⟨before ++ (spelling, clause) :: after, last?⟩).Perm
        (clause :: CommandLine.content ⟨before ++ after, last?⟩) := by
      simp only [CommandLine.content, List.map_append, List.map_cons, List.append_assoc,
        List.cons_append]
      exact List.perm_middle
    have hrepeats : ¬ ((CommandLine.content
        ⟨before ++ (spelling, clause) :: after, last?⟩).map topic).Nodup := by
      rw [(hperm.map topic).nodup_iff, List.map_cons, List.nodup_cons]
      exact fun h => h.1 hmem
    obtain ⟨e, he⟩ := CommandLine.exists_error_of_not_nodup hrepeats
    refine ⟨e, ?_⟩
    rw [runIn, run, he]
    rfl

theorem runIn_order_independent_file :
    runIn [("def", .directory)] false ["--emit=ast", "def", "--strict"] =
      runIn [("def", .directory)] false ["--strict", "--emit", "ast", "--", "def"] ∧
    ∃ e : UsageError,
      runIn [("def", .directory)] false ["--emit=ast", "def", "--emit", "ast", "--strict"] =
        .failure false 2 e.message := by
  have hfile : "def" = "-" ∨ "def" ≠ "" ∧ "def".toList.head? ≠ some '-' := by decide
  have hlegal : "ast" ∈ Setting.stage.values := by decide
  have hperm :
      ([.setting .stage "ast" hlegal, .file ⟨"def", hfile⟩] ++ [.strict] : List Clause).Perm
        ([.strict] ++ [.setting .stage "ast" hlegal, .file ⟨"def", hfile⟩]) :=
    List.perm_append_comm
  obtain ⟨horder, hrepeated⟩ := runIn_order_independent [("def", .directory)] false
  constructor
  · exact horder
      ⟨[(.joined, .setting .stage "ast" hlegal), (.apart, .file ⟨"def", hfile⟩), (.apart, .strict)],
        none⟩
      ⟨[(.apart, .strict), (.apart, .setting .stage "ast" hlegal)], some ⟨"def", hfile⟩⟩
      (by simp [CommandLine.content, topic]) hperm
  · exact hrepeated
      [(.joined, .setting .stage "ast" hlegal), (.apart, .file ⟨"def", hfile⟩)] [(.apart, .strict)]
      none .apart (.setting .stage "ast" hlegal) (by simp [CommandLine.content, topic])

end DefLang.Command
