import Rollout.Proofs.Graph.Acceptance
import Rollout.Proofs.Text.Lines
/-!
Reading a graph from its text.  A line is cut into words at its spaces: the service, and if it depends on anything an
arrow and the dependencies, where every word but the last has a comma at its end (`intercalate_words`).  Names may hold
commas and arrows or be empty, but no space and no line feed (`Solid`); then the words and lines are cut where they were
put together, and `decode` reads the services and their dependencies back (`decode_display`).

The comma is no help in reading: a name may end in one itself.  It is the place of a word that tells, so the decoder
takes the last letter from every dependency but the last one, whatever that letter is.  To put the commas there and to
take them away is each a function on the list of words, and they undo each other for every list.
-/
namespace Rollout

namespace Graph

variable {g : Graph} {name : String}

/-- A name that does not fall apart in a text: it holds neither a space nor a line feed, like any name without white
space. -/
def Solid (name : String) : Prop := ' ' ∉ name.toList ∧ '\n' ∉ name.toList

instance (name : String) : Decidable (Solid name) := inferInstanceAs (Decidable (_ ∧ _))

/-! ## Commas -/

def commaed : List (List Char) → List (List Char)
  | [] => []
  | [word] => [word]
  | word :: next :: rest => (word ++ [',']) :: commaed (next :: rest)

def uncommaed : List (List Char) → List (List Char)
  | [] => []
  | [word] => [word]
  | word :: next :: rest => word.dropLast :: uncommaed (next :: rest)

theorem commaed_cons (word : List Char) {rest : List (List Char)} (h : rest ≠ []) :
    commaed (word :: rest) = (word ++ [',']) :: commaed rest := by
  cases rest with
  | nil => exact absurd rfl h
  | cons next rest => rfl

theorem uncommaed_cons (word : List Char) {rest : List (List Char)} (h : rest ≠ []) :
    uncommaed (word :: rest) = word.dropLast :: uncommaed rest := by
  cases rest with
  | nil => exact absurd rfl h
  | cons next rest => rfl

theorem commaed_eq_nil_iff {words : List (List Char)} : commaed words = [] ↔ words = [] := by
  cases words with
  | nil => simp [commaed]
  | cons word rest => cases rest <;> simp [commaed]

theorem uncommaed_commaed : ∀ words : List (List Char), uncommaed (commaed words) = words
  | [] => rfl
  | [_] => rfl
  | word :: next :: rest => by
    have hrest : commaed (next :: rest) ≠ [] := fun h => by cases commaed_eq_nil_iff.1 h
    rw [commaed_cons word (List.cons_ne_nil next rest), uncommaed_cons _ hrest, uncommaed_commaed (next :: rest),
      List.dropLast_concat]

theorem intercalate_commaed : ∀ words : List (List Char),
    [' '].intercalate (commaed words) = [',', ' '].intercalate words
  | [] => rfl
  | [_] => rfl
  | word :: next :: rest => by
    have hrest : commaed (next :: rest) ≠ [] := fun h => by cases commaed_eq_nil_iff.1 h
    rw [commaed_cons word (List.cons_ne_nil next rest), List.intercalate_cons_of_ne_nil hrest,
      intercalate_commaed (next :: rest), List.intercalate_cons_cons]
    simp

theorem not_mem_commaed {c : Char} (hc : c ≠ ',') : ∀ {words : List (List Char)}, (∀ word ∈ words, c ∉ word) →
    ∀ word ∈ commaed words, c ∉ word
  | [], h => h
  | [_], h => h
  | word :: next :: rest, h => by
    obtain ⟨hword, hrest⟩ := List.forall_mem_cons.1 h
    rw [commaed_cons word (List.cons_ne_nil next rest)]
    exact List.forall_mem_cons.2 ⟨by simp [hword, hc], not_mem_commaed hc hrest⟩

/-! ## Lines -/

def words (g : Graph) (name : String) : List (List Char) :=
  match g.children name with
  | [] => [name.toList]
  | deps => name.toList :: "->".toList :: commaed (deps.map String.toList)

def readWords : List (List Char) → String × List String
  | [] => ("", [])
  | [name] => (String.ofList name, [])
  | name :: _ :: deps => (String.ofList name, (uncommaed deps).map String.ofList)

/-- The services of a text and what each depends on, line by line. -/
def decode (text : String) : List (String × List String) :=
  (text.toList.splitOn '\n').dropLast.map fun line => readWords (line.splitOn ' ')

theorem intercalate_words (g : Graph) (name : String) : [' '].intercalate (g.words name) = (g.line name).toList := by
  unfold words line
  cases g.children name with
  | nil => simp
  | cons dep deps =>
    have hdeps : commaed ((dep :: deps).map String.toList) ≠ [] := fun h => by cases commaed_eq_nil_iff.1 h
    dsimp only
    rw [List.intercalate_cons_cons, List.intercalate_cons_of_ne_nil hdeps, intercalate_commaed, String.toList_append,
      String.toList_append, String.toList_intercalate]
    simp

theorem readWords_words (g : Graph) (name : String) : readWords (g.words name) = (name, g.children name) := by
  unfold words
  cases g.children name with
  | nil => simp [readWords]
  | cons dep deps =>
    show (String.ofList name.toList, (uncommaed (commaed ((dep :: deps).map String.toList))).map String.ofList) = _
    rw [uncommaed_commaed, List.map_map]
    simp [Function.comp_def]

theorem not_mem_words {c : Char} (hc : c ≠ ',' ∧ c ∉ "->".toList) (hname : c ∉ name.toList)
    (hdeps : ∀ dep ∈ g.children name, c ∉ dep.toList) : ∀ word ∈ g.words name, c ∉ word := by
  unfold words
  cases hchildren : g.children name with
  | nil => simpa using hname
  | cons dep deps =>
    refine List.forall_mem_cons.2 ⟨hname, List.forall_mem_cons.2 ⟨hc.2, not_mem_commaed hc.1 fun word hword => ?_⟩⟩
    obtain ⟨other, hother, rfl⟩ := List.mem_map.1 hword
    exact hdeps other (hchildren ▸ hother)

theorem readWords_line (hname : Solid name) (hdeps : ∀ dep ∈ g.children name, Solid dep) :
    readWords ((g.line name).toList.splitOn ' ') = (name, g.children name) := by
  have hspace : ∀ word ∈ g.words name, ' ' ∉ word :=
    not_mem_words (by decide) hname.1 fun dep hdep => (hdeps dep hdep).1
  have hwords : g.words name ≠ [] := by
    unfold words
    split
    · exact List.cons_ne_nil _ _
    · exact List.cons_ne_nil _ _
  rw [← intercalate_words, List.splitOn_intercalate ' ' hspace hwords, readWords_words]

theorem mem_line_iff {c : Char} (hc : c ∉ " -> ".toList ∧ c ∉ ", ".toList) :
    c ∈ (g.line name).toList ↔ c ∈ name.toList ∨ ∃ dep ∈ g.children name, c ∈ dep.toList := by
  unfold line
  cases g.children name with
  | nil => simp
  | cons dep deps =>
    dsimp only
    rw [String.toList_append, String.toList_append, List.mem_append, List.mem_append, or_iff_left hc.1,
      String.toList_intercalate, Text.mem_intercalate hc.2]
    simp

/-! ## Texts -/

theorem display_eq (g : Graph) : g.display = String.join ((g.services.map g.line).map (· ++ "\n")) := by
  rw [List.map_map]
  rfl

/-- **The text of a graph is read back**, if no name falls apart in it. -/
theorem decode_display (hg : g.Accepted) (hsolid : ∀ name ∈ g.services, Solid name) :
    decode g.display = g.services.map fun name => (name, g.children name) := by
  have hdeps : ∀ name, ∀ dep ∈ g.children name, Solid dep := fun name dep hdep =>
    hsolid dep (hg.declared name dep (mem_children_iff.1 hdep))
  have hlines : ∀ line ∈ (g.services.map g.line).map String.toList, '\n' ∉ line := by
    rw [List.map_map]
    refine List.forall_mem_map.2 fun name hname hmem => ?_
    rcases (mem_line_iff (by decide)).1 hmem with hself | ⟨dep, hdep, hother⟩
    · exact (hsolid name hname).2 hself
    · exact (hdeps name dep hdep).2 hother
  unfold decode
  rw [display_eq, Text.toList_joined, Text.splitOn_flatMap, Text.flatMap_splitOn hlines, List.dropLast_concat,
    List.map_map, List.map_map]
  exact List.map_congr_left fun name hname => readWords_line (hsolid name hname) (hdeps name)

theorem children_of_not_mem (h : name ∉ g.services) : g.children name = [] :=
  List.eq_nil_iff_forall_not_mem.2 fun _ hdep => h (mem_services_of_depends (mem_children_iff.1 hdep))

/-- **A text shows all of a graph.**  If the names of its services hold neither spaces nor line feeds, whatever else
they hold, the services and the dependencies of each are read back from the text; so graphs with the same text have the
same services, and each of these the same dependencies. -/
theorem display_decodes {entries : List (String × List String)} (hbuild : build entries = .ok g)
    (hsolid : ∀ name ∈ g.services, Solid name) :
    decode g.display = g.services.map (fun name => (name, g.children name)) ∧
    ∀ {entries' : List (String × List String)} {g' : Graph}, build entries' = .ok g' →
      (∀ name ∈ g'.services, Solid name) → g'.display = g.display →
        g'.services = g.services ∧ ∀ name, g'.children name = g.children name := by
  have hread := decode_display (accepted_of_build hbuild) hsolid
  refine ⟨hread, fun {_ g'} hbuild' hsolid' hsame => ?_⟩
  have hread' := decode_display (accepted_of_build hbuild') hsolid'
  rw [hsame, hread] at hread'
  have hservices : g'.services = g.services := by
    have hnames := congrArg (List.map Prod.fst) hread'
    rw [List.map_map, List.map_map] at hnames
    simpa [Function.comp_def] using hnames.symm
  refine ⟨hservices, fun name => ?_⟩
  by_cases hname : name ∈ g.services
  · rw [hservices] at hread'
    exact (congrArg Prod.snd (List.map_inj_left.1 hread' name hname)).symm
  · rw [children_of_not_mem hname, children_of_not_mem (hservices ▸ hname)]

theorem display_decodes_commas :
    let g : Graph := ⟨Table.ofList [("", ["a,", "->", "a,"]), ("a,", ["->"]), ("->", [])]⟩
    let g' : Graph := ⟨Table.ofList [("->", []), ("a,", ["->", "->"]), ("", ["->", "a,"])]⟩
    g.display = " -> ->, a,\n->\na, -> ->\n" ∧ g'.display = g.display ∧
      decode g.display = [("", ["->", "a,"]), ("->", []), ("a,", ["->"])] ∧ g'.children "" = g.children "" := by
  intro g g'
  have hbuild : build [("", ["a,", "->", "a,"]), ("a,", ["->"]), ("->", [])] = .ok g := by decide +kernel
  have hbuild' : build [("->", []), ("a,", ["->", "->"]), ("", ["->", "a,"])] = .ok g' := by decide +kernel
  have hsame : g'.display = g.display := by decide +kernel
  obtain ⟨hdecode, hdecides⟩ := display_decodes hbuild (by decide +kernel)
  refine ⟨by decide +kernel, hsame, ?_, (hdecides hbuild' (by decide +kernel) hsame).2 ""⟩
  rw [hdecode]
  decide +kernel

-- a space in a name can pass for the one before an arrow
example : display ⟨Table.ofList [("a", ["b"]), ("b", [])]⟩ = display ⟨Table.ofList [("a -> b", []), ("b", [])]⟩ := by
  decide +kernel

end Graph

end Rollout
