import Rollout.Config.Document
import Rollout.Proofs.Graph.Display
import Rollout.Proofs.Program.Output
/-!
What a check prints of a graph.  It cuts the text of the graph into lines again, which undoes the printing of it unless
a name gets in the way: a line feed in a name makes two lines of one, and a carriage return at the end of a line is lost
(`forall_whole_line_iff`).

A line comes through if it holds no line feed and does not end in a carriage return.  The names in a line are those of
its service and of what the service depends on, all of which are services of an accepted graph; so no line holds a line
feed if and only if no service does.  What a line ends in is the end of the last name in it (`lastNamed`).  A line feed
at the end of each line belongs to the text and not to the line, so lines are cut one by one (`lines_display`).
-/
namespace Rollout

namespace Graph

variable {g : Graph} {name : String}

/-! ## Lines that come through -/

/-- The name at the end of the line of a service. -/
def lastNamed (g : Graph) (name : String) : String := (g.children name).getLast?.getD name

theorem getLast?_line_iff {c : Char} (hc : ' ' ≠ c) :
    (g.line name).toList.getLast? = some c ↔ (g.lastNamed name).toList.getLast? = some c := by
  unfold line lastNamed
  cases g.children name with
  | nil => rfl
  | cons dep deps =>
    dsimp only
    rw [String.toList_append, String.toList_append, Text.getLast?_append_separator rfl hc, String.toList_intercalate,
      Text.getLast?_intercalate rfl hc, List.getLast?_map, List.getLast?_cons]
    rfl

theorem Accepted.forall_not_mem_line_iff (hg : g.Accepted) :
    (∀ name ∈ g.services, '\n' ∉ (g.line name).toList) ↔ ∀ name ∈ g.services, '\n' ∉ name.toList := by
  have hline : ∀ name, '\n' ∈ (g.line name).toList ↔ '\n' ∈ name.toList ∨ ∃ dep ∈ g.children name, '\n' ∈ dep.toList :=
    fun name => mem_line_iff (by decide)
  constructor
  · exact fun h name hname hself => h name hname ((hline name).2 (Or.inl hself))
  · intro h name hname hmem
    rcases (hline name).1 hmem with hself | ⟨dep, hdep, hother⟩
    · exact h name hname hself
    · exact h dep (hg.declared name dep (mem_children_iff.1 hdep)) hother

theorem Accepted.forall_whole_line_iff (hg : g.Accepted) : (∀ name ∈ g.services, Text.Whole (g.line name)) ↔
    ∀ name ∈ g.services, '\n' ∉ name.toList ∧ (g.lastNamed name).toList.getLast? ≠ some '\r' := by
  have hend : ∀ name, (g.line name).toList.getLast? ≠ some '\r' ↔ (g.lastNamed name).toList.getLast? ≠ some '\r' :=
    fun name => not_congr (getLast?_line_iff (by decide))
  constructor
  · intro h name hname
    exact ⟨hg.forall_not_mem_line_iff.1 (fun n hn => (h n hn).1) name hname, (hend name).1 (h name hname).2⟩
  · intro h name hname
    exact ⟨hg.forall_not_mem_line_iff.2 (fun n hn => (h n hn).1) name hname, (hend name).2 (h name hname).2⟩

theorem lines_display (g : Graph) : Text.lines g.display = g.services.flatMap fun name => Text.cut (g.line name) := by
  rw [display_eq, Text.lines_join, List.flatMap_map]

theorem lines_display_eq_iff (hg : g.Accepted) : Text.lines g.display = g.services.map g.line ↔
    ∀ name ∈ g.services, '\n' ∉ name.toList ∧ (g.lastNamed name).toList.getLast? ≠ some '\r' := by
  rw [display_eq, Text.lines_join, Text.flatMap_cut_eq_iff, List.forall_mem_map, hg.forall_whole_line_iff]

theorem length_lines_display (g : Graph) :
    (Text.lines g.display).length = g.size + (g.services.flatMap fun name => (g.line name).toList).count '\n' := by
  have hsize : g.services.length = g.size := List.length_map _
  rw [display_eq, Text.lines_join, Text.length_flatMap_cut, List.length_map, hsize, List.flatMap_map]

theorem length_lines_display_eq_iff (hg : g.Accepted) :
    (Text.lines g.display).length = g.size ↔ ∀ name ∈ g.services, '\n' ∉ name.toList := by
  rw [length_lines_display, Nat.add_eq_left, List.count_eq_zero, ← hg.forall_not_mem_line_iff]
  simp

end Graph

/-! ## What a check prints -/

namespace Command

variable {c : Config} {g : Graph}

def shown (text : String) : Line := .status ("  " ++ text)

theorem shown_injective : Function.Injective shown := by
  intro a b h
  unfold shown at h
  simpa using h

/-- **What a check prints of a graph** that is not empty.  Between the heading and the roots stand the lines of all
services, in order, each cut where it holds a line feed.  So there are as many more of them than services as there are
line feeds, and they are the lines of the services if and only if no name holds a line feed and no line ends in a
carriage return. -/
theorem check_prints (hgraph : c.graph = .ok g) (hsome : g.services ≠ []) (parallel : Option Nat)
    (callerCancelled : Bool) : ∃ body : List Line,
    check.run c parallel callerCancelled = .printed (.status "Dependencies:" :: body ++
      [.status ("Roots:  " ++ ", ".intercalate g.roots), .status ("Leaves: " ++ ", ".intercalate g.leaves),
        .success ("Dependency graph is valid (" ++ toString g.size ++ " services)")]) ∧
    body = (g.services.flatMap fun name => Text.cut (g.line name)).map shown ∧
    body.length = g.size + (g.services.flatMap fun name => (g.line name).toList).count '\n' ∧
    (body.length = g.size ↔ ∀ name ∈ g.services, '\n' ∉ name.toList) ∧
    (body = g.services.map (fun name => shown (g.line name)) ↔
      ∀ name ∈ g.services, '\n' ∉ name.toList ∧ (g.lastNamed name).toList.getLast? ≠ some '\r') := by
  have hg : g.Accepted := Graph.accepted_of_build hgraph
  have hempty : g.isEmpty = false := by
    rw [← Bool.not_eq_true, Graph.isEmpty, List.isEmpty_iff]
    exact fun hnone => hsome (congrArg (List.map Prod.fst) hnone)
  refine ⟨(Text.lines g.display).map shown, ?_, ?_, ?_, ?_, ?_⟩
  · rw [run_check hgraph, Graph.overview_of_not_isEmpty hempty]
    rfl
  · rw [Graph.lines_display]
  · rw [List.length_map, Graph.length_lines_display]
  · rw [List.length_map, Graph.length_lines_display_eq_iff hg]
  · have hshown : g.services.map (fun name => shown (g.line name)) = (g.services.map g.line).map shown := by
      rw [List.map_map]
      rfl
    rw [hshown, (List.map_injective_iff.2 shown_injective).eq_iff, Graph.lines_display_eq_iff hg]

theorem check_prints_return : ∃ c g, Config.parse
      "services:\n  \"api\\r\":\n    depends_on: [db]\n  db:\n    image: postgres\n" = .ok c ∧
    c.graph = .ok g ∧ g.services = ["api\r", "db"] ∧
    check.run c (some 2) true = .printed [.status "Dependencies:", .status "  api\r -> db", .status "  db",
      .status "Roots:  api\r", .status "Leaves: db", .success "Dependency graph is valid (2 services)"] := by
  let c : Config := ⟨Table.ofList
    [("api\r", { Service.blank with dependsOn := [.plain "db"] }),
      ("db", { Service.blank with image := some "postgres" })]⟩
  let g : Graph := ⟨Table.ofList [("api\r", ["db"]), ("db", [])]⟩
  have hgraph : c.graph = .ok g := by decide +kernel
  obtain ⟨body, hrun, -, -, -, hlines⟩ := check_prints hgraph (by decide +kernel) (some 2) true
  obtain rfl := hlines.2 (by decide +kernel)
  refine ⟨c, g, by decide +kernel, hgraph, by decide +kernel, hrun.trans ?_⟩
  decide +kernel

/-- The line of one service, whose name holds a line feed, is printed as two. -/
theorem check_cuts_name :
    let c : Config := ⟨Table.ofList [("a\nb", { Service.blank with image := some "x" })]⟩
    let g : Graph := ⟨Table.ofList [("a\nb", [])]⟩
    Config.parse "services:\n  \"a\\nb\":\n    image: x\n" = .ok c ∧ c.graph = .ok g ∧ g.size = 1 ∧
      g.services.map (fun name => shown (g.line name)) = [.status "  a\nb"] ∧
      check.run c none false = .printed [.status "Dependencies:", .status "  a", .status "  b",
        .status "Roots:  a\nb", .status "Leaves: a\nb", .success "Dependency graph is valid (1 services)"] := by
  decide +kernel

end Command

end Rollout
