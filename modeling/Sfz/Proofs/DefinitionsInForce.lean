import Sfz.Proofs.VisitedNodes

namespace Sfz

def Node.definition? : Path × Node → Option Definition
  | (file, .define name value span) => some ⟨name, value, ⟨file, span⟩⟩
  | _ => none

def lastValue? (ds : List Definition) (name : String) : Option String :=
  (ds.reverse.find? (fun d => d.name == name)).map Definition.value

namespace MacroTable

def overlay (m : MacroTable) (ds : List Definition) : MacroTable :=
  ⟨ds.reverse.map (fun d => (d.name, d.value)) ++ m.definitions⟩

theorem overlay_append (m : MacroTable) (ds es : List Definition) :
    m.overlay (ds ++ es) = (m.overlay ds).overlay es := by
  simp only [overlay, List.reverse_append, List.map_append, List.append_assoc]

theorem overlay_concat (m : MacroTable) (ds : List Definition) (d : Definition) :
    m.overlay (ds ++ [d]) = (m.overlay ds).define d.name d.value :=
  m.overlay_append ds [d]

theorem get?_overlay (m : MacroTable) (ds : List Definition) (name : String) :
    (m.overlay ds).get? name = (lastValue? ds name).or (m.get? name) := by
  induction ds using List.reverseRecOn with
  | nil => rfl
  | append_singleton ds d ih =>
    rw [overlay_concat, lastValue?, List.reverse_append, List.reverse_singleton, List.singleton_append]
    by_cases hd : d.name = name
    · rw [List.find?_cons_of_pos (by simpa using hd), ← hd, get?_define_self]
      rfl
    · rw [List.find?_cons_of_neg (by simpa using hd), get?_define_of_ne _ _ (Ne.symm hd), ih, lastValue?]

end MacroTable

def Node.setting? (m : MacroTable) (before : List (Path × Node)) : Path × Node → Option Setting
  | (file, .opcode name value span) =>
    if (before.filterMap Node.header?).isEmpty then none
    else some ((m.overlay (before.filterMap Node.definition?)).setting name value ⟨file, span⟩)
  | _ => none

theorem attached_opcodes (m : MacroTable) (before ns : List (Path × Node)) :
    (attached (opcodes (m.overlay (before.filterMap Node.definition?))
        (before.filterMap Node.header?).length ns)).map Prod.snd =
      (ns.zipIdx before.length).filterMap (fun n => Node.setting? m ((before ++ ns).take n.2) n.1) := by
  -- the nodes before are carried along, so that those after a node see it among them
  induction ns generalizing before with
  | nil => rfl
  | cons n ns ih =>
    have hrest := ih (before ++ [n])
    rw [List.append_assoc, List.singleton_append, List.length_append, List.length_singleton,
      List.filterMap_append, List.filterMap_append, List.length_append] at hrest
    rw [List.zipIdx_cons, List.filterMap_cons, List.take_left, ← hrest]
    obtain ⟨file, n⟩ := n
    cases n with
    | opcode name value span =>
      cases hheaders : before.filterMap Node.header? with
      | nil =>
        simp [opcodes, Node.setting?, Node.header?, Node.definition?, List.filterMap_cons, hheaders, attached,
          latest?]
      | cons header headers =>
        simp [opcodes, Node.setting?, Node.header?, Node.definition?, List.filterMap_cons, hheaders, attached,
          latest?]
    | define name value span =>
      simp [opcodes, Node.setting?, Node.header?, Node.definition?, List.filterMap_cons,
        MacroTable.overlay_concat]
    | _ => simp [opcodes, Node.setting?, Node.header?, Node.definition?, List.filterMap_cons]

namespace Resolution

structure Records (s : Resolution) (ns : List (Path × Node)) (s' : Resolution) : Prop where
  definitions : s'.builder.document.definitions.toList =
    s.builder.document.definitions.toList ++ ns.filterMap Node.definition?
  macros : s'.macros = s.macros.overlay (ns.filterMap Node.definition?)

theorem records_nil (s : Resolution) : s.Records [] s :=
  ⟨(List.append_nil _).symm, rfl⟩

theorem Records.trans {s s' s'' : Resolution} {ns ms : List (Path × Node)} (h : s.Records ns s')
    (h' : s'.Records ms s'') : s.Records (ns ++ ms) s'' := by
  constructor
  · rw [h'.definitions, h.definitions, List.filterMap_append, List.append_assoc]
  · rw [h'.macros, h.macros, List.filterMap_append, MacroTable.overlay_append]

theorem records_visit (s : Resolution) (file : Path) (n : Node) : s.Records [(file, n)] (s.visit file n) := by
  cases n with
  | header kind span => exact ⟨(List.append_nil _).symm, rfl⟩
  | define name value span => exact ⟨Array.toList_push .., rfl⟩
  | inclusion raw span => exact ⟨(List.append_nil _).symm, rfl⟩
  | opcode name value span =>
    obtain ⟨hmacros, hbuilder⟩ := s.visit_opcode file name value span
    refine ⟨?_, hmacros⟩
    rw [hbuilder]
    split
    · exact (List.append_nil _).symm
    · exact (List.append_nil _).symm

end Resolution

theorem Step.records {t : FileTree} {p q : Point} {v : Visit} (h : Step t p v q) :
    p.state.Records (Visit.nodes [v]) q.state := by
  cases h with
  | leave l file base outer s => exact s.records_nil
  | enter l file base ns outer s span h => exact s.records_nil
  | @node l file base ns outer s n hn => exact s.records_visit file n
  | refuse l file base ns outer s span h => exact ⟨(List.append_nil _).symm, rfl⟩

theorem Run.records {t : FileTree} {p q : Point} {vs : List Visit} (h : Run t p vs q) :
    p.state.Records (Visit.nodes vs) q.state := by
  induction h with
  | refl p => exact p.state.records_nil
  | @cons p q r v vs hs _ ih =>
    have hnodes : Visit.nodes (v :: vs) = Visit.nodes [v] ++ Visit.nodes vs :=
      List.filterMap_append (l := [v])
    rw [hnodes]
    exact hs.records.trans ih

namespace FileTree

theorem resolve_tracks_definitions (t : FileTree) (root : Path) (rel : Option Path) (macros : MacroTable)
    {nodes : List Node} (h : t.nodes root = .ok nodes) :
    ∃ vs s, t.resolve root rel macros = .ok s ∧
      Run t (.start t root rel macros nodes) vs ⟨[], s⟩ ∧
      (∀ ws q, Run t (.start t root rel macros nodes) ws q →
        q.state.builder.document.definitions.toList = (Visit.nodes ws).filterMap Node.definition? ∧
        ∀ name, q.state.macros.get? name =
          (lastValue? q.state.builder.document.definitions.toList name).or (macros.get? name)) ∧
      s.builder.document.settings.map Prod.snd = (Visit.nodes vs).zipIdx.filterMap
        (fun n => Node.setting? macros ((Visit.nodes vs).take n.2) n.1) := by
  obtain ⟨vs, s, hs, hr⟩ := run_resolve h rel macros
  refine ⟨vs, s, hs, hr, ?_, ?_⟩
  · intro ws q hq
    obtain ⟨hdefinitions, hmacros⟩ := hq.records
    refine ⟨hdefinitions, fun name => ?_⟩
    rw [hmacros, MacroTable.get?_overlay, hdefinitions]
    rfl
  · have hsettings := hr.absorbs.settings
    have hopcodes := attached_opcodes macros [] (Visit.nodes vs)
    exact (congrArg (List.map Prod.snd) hsettings).trans hopcodes

def choir : FileTree :=
  .ofTexts [("choir.sfz", 1), ("alto.sfz", 2)]
    ["<region>key=$n\n#include \"alto.sfz\"\nKEY=$n", "#define $n 60\nkey=$n\n#define $n 62"]
    ⟨by decide, by decide, by decide⟩

theorem resolve_choir :
    let macros := MacroTable.empty.define "n" "48"
    ∃ s, choir.resolve ⟨"choir.sfz"⟩ none macros = .ok s ∧
      s.builder.document.definitions.toList =
        [⟨"n", "60", ⟨⟨"alto.sfz"⟩, ⟨1, 1⟩⟩⟩, ⟨"n", "62", ⟨⟨"alto.sfz"⟩, ⟨3, 1⟩⟩⟩] ∧
      s.macros.get? "n" = some "62" ∧
      s.builder.document.settings.map Prod.snd =
        [⟨"key", "48", ⟨⟨"choir.sfz"⟩, ⟨1, 9⟩⟩⟩, ⟨"key", "60", ⟨⟨"alto.sfz"⟩, ⟨2, 1⟩⟩⟩,
          ⟨"key", "62", ⟨⟨"choir.sfz"⟩, ⟨3, 1⟩⟩⟩] := by
  intro macros
  have hroot : choir.Holds "choir.sfz" 1 "<region>key=$n\n#include \"alto.sfz\"\nKEY=$n" :=
    holds_ofTexts _ (by decide) rfl (by decide)
  have halto : choir.Holds "alto.sfz" 2 "#define $n 60\nkey=$n\n#define $n 62" :=
    holds_ofTexts _ (by decide) rfl (by decide)
  have hnodes : choir.nodes ⟨"choir.sfz"⟩ = .ok [.header .region ⟨1, 1⟩, .opcode "key" "$n" ⟨1, 9⟩,
      .inclusion "alto.sfz" ⟨2, 1⟩, .opcode "KEY" "$n" ⟨3, 1⟩] :=
    hroot.nodes (by decide +kernel)
  have hnodes' : choir.nodes ⟨"alto.sfz"⟩ =
      .ok [.define "n" "60" ⟨1, 1⟩, .opcode "key" "$n" ⟨2, 1⟩, .define "n" "62" ⟨3, 1⟩] :=
    halto.nodes (by decide +kernel)
  have hnew : choir.key ⟨"alto.sfz"⟩ ∉ [choir.key ⟨"choir.sfz"⟩] := by
    rw [hroot.key, halto.key]
    decide
  have hexpand : macros.expand "alto.sfz" = ⟨"alto.sfz", []⟩ := by decide +kernel
  have hjoin : (Path.directory ⟨"choir.sfz"⟩).join ⟨"alto.sfz"⟩ = ⟨"alto.sfz"⟩ := by decide
  have hopen := openInclude_of_expand hexpand hjoin halto.locateFile? hnew hnodes'
  obtain ⟨vs, s, hs, hr, hpoints, hsettings⟩ :=
    resolve_tracks_definitions choir ⟨"choir.sfz"⟩ none macros hnodes
  have hrun : Run choir (.start choir ⟨"choir.sfz"⟩ none macros [.header .region ⟨1, 1⟩,
        .opcode "key" "$n" ⟨1, 9⟩, .inclusion "alto.sfz" ⟨2, 1⟩, .opcode "KEY" "$n" ⟨3, 1⟩]) _ ⟨[], _⟩ :=
    .cons (.node _ _ _ _ _ _ rfl) (.cons (.node _ _ _ _ _ _ rfl) (.cons (.enter _ _ _ _ _ _ ⟨2, 1⟩ hopen)
      (.cons (.node _ _ _ _ _ _ rfl) (.cons (.node _ _ _ _ _ _ rfl) (.cons (.node _ _ _ _ _ _ rfl)
        (.cons (.leave _ _ _ _ _) (.cons (.node _ _ _ _ _ _ rfl) (.one (.leave _ _ _ _ _)))))))))
  have hvisited : Visit.nodes vs = [(⟨"choir.sfz"⟩, .header .region ⟨1, 1⟩),
      (⟨"choir.sfz"⟩, .opcode "key" "$n" ⟨1, 9⟩), (⟨"alto.sfz"⟩, .define "n" "60" ⟨1, 1⟩),
      (⟨"alto.sfz"⟩, .opcode "key" "$n" ⟨2, 1⟩), (⟨"alto.sfz"⟩, .define "n" "62" ⟨3, 1⟩),
      (⟨"choir.sfz"⟩, .opcode "KEY" "$n" ⟨3, 1⟩)] := by
    rw [← (hrun.final_unique hr).1]
    rfl
  obtain ⟨hdefinitions, hget⟩ := hpoints vs ⟨[], s⟩ hr
  rw [hvisited] at hdefinitions hsettings
  refine ⟨s, hs, hdefinitions, ?_, hsettings.trans (by decide +kernel)⟩
  rw [hget, hdefinitions]
  decide +kernel

end FileTree

end Sfz
