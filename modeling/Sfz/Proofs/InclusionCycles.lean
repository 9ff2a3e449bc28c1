import Mathlib.Algebra.Group.Fin.Basic
import Mathlib.Data.Finset.Card
import Sfz.Proofs.LongPaths

/-!
Files that include one another. The open files of a run have different keys at every point, and the run comes to
an end. Where files have canonical paths, nesting is bounded by the number of files. A directive is refused as a
cycle only if its file is open, and then it adds nothing. A ring of files is worked through once, with one refusal.
-/

namespace Sfz

structure Point.Sound (t : FileTree) (p : Point) : Prop where
  nodup : p.chain.Nodup
  keyed : ∀ frame ∈ p.frames, frame.key = t.key frame.file
  files : ∀ frame ∈ p.frames, ∃ l, t.locateFile? frame.file = some l

namespace Point.Sound

variable {t : FileTree} {p q : Point} {v : Visit} {vs : List Visit}

theorem start {root : Path} {nodes : List Node} (h : t.nodes root = .ok nodes) (rel : Option Path)
    (macros : MacroTable) : (Point.start t root rel macros nodes).Sound t := by
  obtain ⟨old, hread, -⟩ := FileTree.nodes_eq_ok.mp h
  obtain ⟨l, hfile, hl⟩ := FileTree.locate_of_read hread
  refine ⟨List.nodup_singleton _, ?_, ?_⟩
  · intro frame hframe
    rw [List.mem_singleton.mp hframe]
  · intro frame hframe
    rw [List.mem_singleton.mp hframe]
    exact ⟨l, FileTree.locateFile?_eq_some.mpr ⟨hl, hfile⟩⟩

theorem step (hp : p.Sound t) (h : Step t p v q) : q.Sound t := by
  obtain ⟨hnodup, hkeyed, hfiles⟩ := hp
  cases h with
  | leave key file base outer s =>
    exact ⟨(List.nodup_cons.mp hnodup).2, (List.forall_mem_cons.mp hkeyed).2, (List.forall_mem_cons.mp hfiles).2⟩
  | node key file base ns outer s hn =>
    exact ⟨hnodup, List.forall_mem_cons.mpr (List.forall_mem_cons.mp hkeyed),
      List.forall_mem_cons.mpr (List.forall_mem_cons.mp hfiles)⟩
  | refuse key file base ns outer s span ho =>
    exact ⟨hnodup, List.forall_mem_cons.mpr (List.forall_mem_cons.mp hkeyed),
      List.forall_mem_cons.mpr (List.forall_mem_cons.mp hfiles)⟩
  | @enter key file base ns outer s raw span o ho =>
    cases openInclude_eq_iff.mp ho with
    | opened hu hf hl hk hn =>
      refine ⟨List.nodup_cons.mpr ⟨o.isNew, hnodup⟩, ?_, ?_⟩
      · exact List.forall_mem_cons.mpr ⟨hk, List.forall_mem_cons.mpr (List.forall_mem_cons.mp hkeyed)⟩
      · exact List.forall_mem_cons.mpr ⟨⟨_, hl⟩, List.forall_mem_cons.mpr (List.forall_mem_cons.mp hfiles)⟩

theorem run (hp : p.Sound t) (h : Run t p vs q) : q.Sound t :=
  h.invariant (fun _ _ _ => step) hp

theorem open_of_mem (hp : p.Sound t) {target : Path} {l : Location} (hl : t.locateFile? target = some l)
    (hk : t.key target ∈ p.chain) : ∃ frame ∈ p.frames, t.locateFile? frame.file = some l := by
  obtain ⟨frame, hframe, hkey⟩ := List.mem_map.mp hk
  obtain ⟨l', hl'⟩ := hp.files frame hframe
  refine ⟨frame, hframe, ?_⟩
  rw [hl', FileTree.location_of_key_eq hl hl' (by rw [← hp.keyed frame hframe, hkey])]

theorem exists_paths (hp : p.Sound t) (hc : ∀ frame ∈ p.frames, (t.canonical? frame.file).isSome = true) :
    ∃ paths : List (List String), paths.Nodup ∧ paths.length = p.frames.length ∧
      ∀ names ∈ paths, ∃ l ∈ t.files, t.At names l := by
  have hnames : ∀ key ∈ p.chain, ∃ names, (∃ l ∈ t.files, t.At names l) ∧ key = .root :: names.map .name := by
    intro key hkey
    obtain ⟨frame, hframe, rfl⟩ := List.mem_map.mp hkey
    obtain ⟨l, hl⟩ := hp.files frame hframe
    obtain ⟨hloc, hfile⟩ := FileTree.locateFile?_eq_some.mp hl
    obtain ⟨q, hq⟩ := Option.isSome_iff_exists.mp (hc frame hframe)
    obtain ⟨names, hat, hk⟩ := FileTree.key_of_canonical? hloc hq
    exact ⟨names, ⟨l, hfile, hat⟩, (hp.keyed frame hframe).trans hk⟩
  have htail (names : List String) : (names.map Path.Component.name).map Path.Component.piece = names := by
    rw [List.map_map]
    exact List.map_id names
  refine ⟨p.chain.map (fun key => key.tail.map Path.Component.piece), ?_, ?_, ?_⟩
  · apply List.Nodup.map_on _ hp.nodup
    intro key hkey key' hkey' h
    obtain ⟨names, -, rfl⟩ := hnames key hkey
    obtain ⟨names', -, rfl⟩ := hnames key' hkey'
    rw [List.tail_cons, List.tail_cons, htail, htail] at h
    rw [h]
  · rw [List.length_map, chain, List.length_map]
  · intro path hpath
    obtain ⟨key, hkey, rfl⟩ := List.mem_map.mp hpath
    obtain ⟨names, hat, rfl⟩ := hnames key hkey
    rw [List.tail_cons, htail]
    exact hat

end Point.Sound

theorem FileTree.length_le_card_files {t : FileTree} (hone : ∀ l ∈ t.files, t.HasOnePath l)
    {paths : List (List String)} (hd : paths.Nodup) (h : ∀ names ∈ paths, ∃ l ∈ t.files, t.At names l) :
    paths.length ≤ t.files.toFinset.card := by
  classical
  choose! location hfile hat using h
  rw [← List.toFinset_card_of_nodup hd]
  apply Finset.card_le_card_of_injOn location
  · intro names hnames
    rw [Finset.mem_coe, List.mem_toFinset] at hnames ⊢
    exact hfile names hnames
  · intro names hnames names' hnames' hl
    rw [Finset.mem_coe, List.mem_toFinset] at hnames hnames'
    refine hone (location names) (hfile names hnames) names names' (hat names hnames) ?_
    rw [hl]
    exact hat names' hnames'

theorem Run.canonical {t : FileTree} {p q : Point} {vs : List Visit} (hr : Run t p vs q) (hp : p.Canonical t)
    (h : ∀ frame ∈ p.frames, (t.canonical? frame.file).isSome = true) :
    ∀ frame ∈ q.frames, (t.canonical? frame.file).isSome = true := by
  induction hr with
  | refl => exact h
  | @cons p q r v vs hs hr ih =>
    apply ih (hp.step hs)
    cases hs with
    | leave key file base outer s => exact (List.forall_mem_cons.mp h).2
    | node key file base ns outer s hn => exact List.forall_mem_cons.mpr (List.forall_mem_cons.mp h)
    | refuse key file base ns outer s span ho => exact List.forall_mem_cons.mpr (List.forall_mem_cons.mp h)
    | enter key file base ns outer s span ho =>
      have hfile := hp [] _ _ _ (.one (.enter key file base ns outer s span ho))
      exact List.forall_mem_cons.mpr ⟨hfile, List.forall_mem_cons.mpr (List.forall_mem_cons.mp h)⟩

def Finding.isCycle (f : Finding) : Bool :=
  match f.problem with
  | .includeCycle _ => true
  | _ => false

def Resolution.cycles (s : Resolution) : List Finding :=
  s.findings.toList.filter Finding.isCycle

def Visit.finding? : Visit → Option Finding
  | .refuse file span problem => some ⟨problem, ⟨file, span⟩, none⟩
  | _ => none

def Visit.key? : Visit → Option FileKey
  | .enter key _ => some key
  | _ => none

def Visit.cycles (vs : List Visit) : List Finding :=
  (vs.filterMap Visit.finding?).filter Finding.isCycle

theorem Visit.cycles_append (vs ws : List Visit) :
    Visit.cycles (vs ++ ws) = Visit.cycles vs ++ Visit.cycles ws := by
  simp [Visit.cycles, List.filterMap_append]

theorem Resolution.cycles_report (s : Resolution) (f : Finding) :
    (s.report f).cycles = s.cycles ++ [f].filter Finding.isCycle := by
  simp [cycles, report]

theorem Resolution.cycles_assign (s : Resolution) (raw value : String) (p : Position) :
    (s.assign raw value p).cycles = s.cycles := by
  unfold assign
  dsimp only
  split
  · simp [cycles, Finding.isCycle]
  · simp [cycles, report, Finding.isCycle]

theorem Resolution.cycles_visit (s : Resolution) (file : Path) (n : Node) :
    (s.visit file n).cycles = s.cycles := by
  cases n with
  | opcode name value span => exact cycles_assign s name value ⟨file, span⟩
  | _ => rfl

theorem Step.cycles {t : FileTree} {p q : Point} {v : Visit} (h : Step t p v q) :
    q.state.cycles = p.state.cycles ++ Visit.cycles [v] := by
  cases h with
  | leave => simp [Visit.cycles, Visit.finding?]
  | node key file base ns outer s hn => simp [Visit.cycles, Visit.finding?, Resolution.cycles_visit]
  | refuse key file base ns outer s span h => exact Resolution.cycles_report _ _
  | enter => simp [Visit.cycles, Visit.finding?]

theorem Run.cycles {t : FileTree} {p q : Point} {vs : List Visit} (h : Run t p vs q) :
    q.state.cycles = p.state.cycles ++ Visit.cycles vs := by
  induction h with
  | refl => simp [Visit.cycles]
  | @cons p q r v vs hs _ ih =>
    rw [ih, hs.cycles, List.append_assoc, ← Visit.cycles_append, List.singleton_append]

def MacroTable.defineAll (macros : MacroTable) (ns : List Node) : MacroTable :=
  ns.foldl (fun m n => match n with
    | .define name value _ => m.define name value
    | _ => m) macros

theorem Resolution.macros_foldl_visit (s : Resolution) (file : Path) (ns : List Node) :
    (ns.foldl (fun s n => s.visit file n) s).macros = s.macros.defineAll ns := by
  induction ns generalizing s with
  | nil => rfl
  | cons n ns ih =>
    rw [List.foldl_cons, ih]
    cases n with
    | opcode name value span =>
      have hm : (s.assign name value ⟨file, span⟩).macros = s.macros := by
        unfold Resolution.assign
        dsimp only
        split <;> rfl
      exact congrArg (fun m => MacroTable.defineAll m ns) hm
    | _ => rfl

def Visit.Quiet (vs : List Visit) : Prop :=
  Visit.cycles vs = [] ∧ vs.filterMap Visit.key? = []

theorem Visit.Quiet.around {vs ws : List Visit} (hv : Visit.Quiet vs) (hw : Visit.Quiet ws)
    (us : List Visit) : Visit.cycles (vs ++ (us ++ ws)) = Visit.cycles us ∧
      (vs ++ (us ++ ws)).filterMap Visit.key? = us.filterMap Visit.key? := by
  constructor
  · rw [Visit.cycles_append, Visit.cycles_append, hv.1, hw.1, List.nil_append, List.append_nil]
  · rw [List.filterMap_append, List.filterMap_append, hv.2, hw.2, List.nil_append, List.append_nil]

section Plain

variable (t : FileTree) (key : FileKey) (file base : Path) {ns : List Node}
  (hi : ∀ n ∈ ns, n.isInclusion = false) (outer : List Frame) (s : Resolution)

include hi

theorem run_plain (rest : List Node) : ∃ vs, Visit.Quiet vs ∧
    Run t ⟨⟨key, file, base, ns ++ rest⟩ :: outer, s⟩ vs
      ⟨⟨key, file, base, rest⟩ :: outer, ns.foldl (fun s n => s.visit file n) s⟩ := by
  induction ns generalizing s with
  | nil => exact ⟨[], ⟨rfl, rfl⟩, .refl _⟩
  | cons n ns ih =>
    have hn := hi n (List.mem_cons_self ..)
    obtain ⟨vs, hq, hr⟩ := ih (fun m hm => hi m (List.mem_cons_of_mem n hm)) (s.visit file n)
    exact ⟨.node file n :: vs, hq, .cons (.node key file base (ns ++ rest) outer s hn) hr⟩

theorem run_plain_leave : ∃ vs s', Visit.Quiet vs ∧
    Run t ⟨⟨key, file, base, ns⟩ :: outer, s⟩ vs ⟨outer, s'⟩ := by
  obtain ⟨vs, hq, hr⟩ := run_plain t key file base hi outer s []
  rw [List.append_nil] at hr
  refine ⟨vs ++ [.leave], _, ⟨?_, ?_⟩, hr.trans (.one (.leave key file base outer _))⟩
  · rw [Visit.cycles_append, hq.1]
    rfl
  · rw [List.filterMap_append, hq.2]
    rfl

end Plain

/-- Files with different canonical paths, each with a single directive. -/
structure Ring (t : FileTree) (k : Nat) where
  file : Fin (k + 1) → Path
  place : Fin (k + 1) → Path
  before : Fin (k + 1) → List Node
  path : Fin (k + 1) → String
  span : Fin (k + 1) → Span
  after : Fin (k + 1) → List Node
  placed : ∀ i, t.canonical? (file i) = some (place i)
  distinct : Function.Injective place
  parsed : ∀ i, t.nodes (file i) = .ok (before i ++ .inclusion (path i) (span i) :: after i)
  plain_before : ∀ i, ∀ n ∈ before i, n.isInclusion = false
  plain_after : ∀ i, ∀ n ∈ after i, n.isInclusion = false

namespace Ring

variable {t : FileTree} {k : Nat} (r : Ring t k) (j : Fin (k + 1))

def further (n : Nat) : Fin (k + 1) :=
  j + Fin.ofNat (k + 1) n

theorem further_zero : further j 0 = j := by
  simp [further]

theorem further_last : further j (k + 1) = j := by
  simp [further]

theorem further_inj {n m : Nat} (hn : n ≤ k) (hm : m ≤ k) (h : further j n = further j m) : n = m := by
  have h' := congrArg Fin.val (add_left_cancel h)
  rw [Fin.val_ofNat, Fin.val_ofNat, Nat.mod_eq_of_lt (by omega), Nat.mod_eq_of_lt (by omega)] at h'
  exact h'

theorem exists_further (i : Fin (k + 1)) : ∃ n ≤ k, further j n = i := by
  refine ⟨(i - j).val, by omega, ?_⟩
  rw [further, Fin.ofNat_val_eq_self, add_sub_cancel]

def table (macros : MacroTable) : Nat → MacroTable
  | 0 => macros.defineAll (r.before j)
  | n + 1 => (table macros n).defineAll (r.before (further j (n + 1)))

def opened (root : Path) (macros : MacroTable) : Nat → Path
  | 0 => root
  | n + 1 => (opened root macros n).directory.join ⟨(r.table j macros n).written (r.path (further j n))⟩

def Names (p : Path) (i : Fin (k + 1)) : Prop :=
  t.isFile p = true ∧ t.canonical? p = some (r.place i)

def Linked (root : Path) (macros : MacroTable) : Prop :=
  ∀ n ≤ k, ((r.table j macros n).expand (r.path (further j n))).undefined = [] ∧
    r.Names (r.opened j root macros (n + 1)) (further j (n + 1))

def nodes (i : Fin (k + 1)) : List Node :=
  r.before i ++ .inclusion (r.path i) (r.span i) :: r.after i

def key (i : Fin (k + 1)) : FileKey :=
  (r.place i).components

def Below (n : Nat) (outer : List Frame) : Prop :=
  ∀ key, key ∈ outer.map Frame.key ↔ ∃ m < n, key = r.key (further j m)

variable {r j}

theorem names_file (i : Fin (k + 1)) : r.Names (r.file i) i := by
  obtain ⟨text, hread, -⟩ := FileTree.nodes_eq_ok.mp (r.parsed i)
  obtain ⟨l, hfile, hl⟩ := FileTree.locate_of_read hread
  refine ⟨?_, r.placed i⟩
  rw [FileTree.isFile, FileTree.locateFile?_eq_some.mpr ⟨hl, hfile⟩]
  rfl

section Names

variable {p : Path} {i : Fin (k + 1)} (h : r.Names p i)

include h

theorem Names.locate : ∃ l, t.locateFile? p = some l :=
  Option.isSome_iff_exists.mp h.1

theorem Names.key : t.key p = r.key i := by
  rw [FileTree.key, h.2]
  rfl

theorem Names.nodes : t.nodes p = .ok (r.nodes i) := by
  obtain ⟨l, hl⟩ := h.locate
  obtain ⟨m, hm⟩ := (names_file i).locate
  obtain rfl := FileTree.location_of_key_eq hl hm (h.key.trans (names_file i).key.symm)
  exact FileTree.nodes_of_locate_eq (FileTree.locateFile?_eq_some.mp hm).1 (FileTree.locateFile?_eq_some.mp hl).1
    (r.parsed i)

end Names

theorem key_injective : Function.Injective r.key := by
  intro i i' h
  obtain ⟨l, hl⟩ := (r.names_file i).locate
  obtain ⟨l', hl'⟩ := (r.names_file i').locate
  obtain ⟨names, hi, hat, -⟩ := FileTree.canonical?_eq_some (FileTree.locateFile?_eq_some.mp hl).1 (r.placed i)
  obtain ⟨names', hi', hat', -⟩ := FileTree.canonical?_eq_some (FileTree.locateFile?_eq_some.mp hl').1 (r.placed i')
  rw [key, key, hi, hi', Path.components_ofNames hat.isFileName, Path.components_ofNames hat'.isFileName] at h
  apply r.distinct
  rw [hi, hi', FileTree.names_of_key_eq h]

theorem Below.cons {n : Nat} {outer : List Frame} (h : r.Below j n outer) (file base : Path)
    (ns : List Node) : r.Below j (n + 1) (⟨r.key (further j n), file, base, ns⟩ :: outer) := by
  intro key
  rw [List.map_cons, List.mem_cons, h]
  constructor
  · rintro (rfl | ⟨m, hm, rfl⟩)
    · exact ⟨n, by omega, rfl⟩
    · exact ⟨m, by omega, rfl⟩
  · rintro ⟨m, hm, rfl⟩
    by_cases hmn : m = n
    · exact .inl (by rw [hmn])
    · exact .inr ⟨m, by omega, rfl⟩

theorem Below.first_mem {n : Nat} {outer : List Frame} (h : r.Below j (n + 1) outer) :
    r.key j ∈ outer.map Frame.key :=
  (h _).mpr ⟨0, Nat.succ_pos n, by rw [further_zero]⟩

theorem Below.next_not_mem {n : Nat} {outer : List Frame} (h : r.Below j n outer) (hn : n ≤ k) :
    r.key (further j n) ∉ outer.map Frame.key := by
  intro hl
  obtain ⟨m, hm, he⟩ := (h _).mp hl
  have := further_inj j hn (by omega) (key_injective he)
  omega

theorem linked_of_names {root : Path} {macros : MacroTable} {name : Fin (k + 1) → String}
    (hname : ∀ i, isFileName (name i) = true) (hfile : ∀ i, r.file i = root.directory.join ⟨name i⟩)
    (hw : ∀ n ≤ k, ((r.table j macros n).expand (r.path (further j n))).undefined = [] ∧
      (r.table j macros n).written (r.path (further j n)) = name (further j (n + 1))) :
    r.Linked j root macros := by
  have hopened (n : Nat) (hn : n ≤ k) (hd : (r.opened j root macros n).directory = root.directory) :
      r.opened j root macros (n + 1) = r.file (further j (n + 1)) := by
    rw [opened, hd, (hw n hn).2, hfile]
  have hdirectory (n : Nat) (hn : n ≤ k) : (r.opened j root macros n).directory = root.directory := by
    induction n with
    | zero => rfl
    | succ n ih =>
      rw [hopened n (by omega) (ih (by omega)), hfile]
      exact root.settled_directory _ (hname _)
  intro n hn
  refine ⟨(hw n hn).1, ?_⟩
  rw [hopened n hn (hdirectory n hn)]
  exact names_file _

variable {root : Path} {macros : MacroTable} (hlinked : r.Linked j root macros)

include hlinked

theorem open_of_mem {n : Nat} (hn : n ≤ k) {chain : List FileKey} (hc : r.key (further j (n + 1)) ∈ chain) :
    openInclude t chain (r.table j macros n) (r.opened j root macros n).directory (r.path (further j n)) =
      .error (.includeCycle ((r.table j macros n).written (r.path (further j n)))) := by
  obtain ⟨hu, hnames⟩ := hlinked n hn
  obtain ⟨l, hl⟩ := hnames.locate
  rw [← hnames.key] at hc
  exact openInclude_eq_iff.mpr (.cycle hu hl hc)

theorem open_of_not_mem {n : Nat} (hn : n ≤ k) {chain : List FileKey}
    (hc : r.key (further j (n + 1)) ∉ chain) : ∃ o : Opened chain,
      openInclude t chain (r.table j macros n) (r.opened j root macros n).directory (r.path (further j n)) = .ok o ∧
      o.file = r.opened j root macros (n + 1) ∧ o.key = r.key (further j (n + 1)) ∧
      o.nodes = r.nodes (further j (n + 1)) := by
  obtain ⟨hu, hnames⟩ := hlinked n hn
  obtain ⟨l, hl⟩ := hnames.locate
  rw [← hnames.key] at hc
  refine ⟨_, openInclude_eq_ok hu hl hc hnames.nodes, ?_, ?_, ?_⟩
  all_goals dsimp only
  · rfl
  · exact hnames.key

omit hlinked in
theorem run_before {n : Nat} (file base : Path) (outer : List Frame) {s : Resolution}
    (hs : s.macros.defineAll (r.before (further j n)) = r.table j macros n) :
    ∃ vs s₁, Visit.Quiet vs ∧
      Run t ⟨⟨r.key (further j n), file, base, r.nodes (further j n)⟩ :: outer, s⟩ vs
        ⟨⟨r.key (further j n), file, base, .inclusion (r.path (further j n)) (r.span (further j n)) ::
          r.after (further j n)⟩ :: outer, s₁⟩ ∧
      s₁.macros = r.table j macros n := by
  obtain ⟨vs, hq, hr⟩ := run_plain t (r.key (further j n)) file base (r.plain_before (further j n)) outer s
    (.inclusion (r.path (further j n)) (r.span (further j n)) :: r.after (further j n))
  exact ⟨vs, _, hq, hr, (Resolution.macros_foldl_visit s file _).trans hs⟩

/-- From a file of the ring on, every further file is opened once, and one directive is refused. -/
theorem run_from {e n : Nat} (he : n + e = k) {outer : List Frame} (hb : r.Below j n outer)
    {s : Resolution} (hs : s.macros.defineAll (r.before (further j n)) = r.table j macros n) :
    ∃ vs s', Run t ⟨⟨r.key (further j n), r.opened j root macros n, (r.opened j root macros n).directory,
        r.nodes (further j n)⟩ :: outer, s⟩ vs ⟨outer, s'⟩ ∧
      (Visit.cycles vs).length = 1 ∧
      vs.filterMap Visit.key? = (List.range' (n + 1) e).map (fun m => r.key (further j m)) := by
  induction e generalizing n outer s with
  | zero =>
    obtain rfl : n = k := he
    obtain ⟨vs, s₁, hq, hr, hs₁⟩ := run_before (r.opened j root macros n) (r.opened j root macros n).directory outer hs
    have hc : r.key (further j (n + 1)) ∈ r.key (further j n) :: outer.map Frame.key := by
      rw [further_last]
      exact (hb.cons root root []).first_mem
    have ho := open_of_mem hlinked le_rfl hc
    rw [← hs₁] at ho
    have hstep := Step.refuse _ (r.opened j root macros n) _ (r.after (further j n)) outer s₁ (r.span (further j n)) ho
    obtain ⟨ws, s', hq', hr'⟩ := run_plain_leave t (r.key (further j n)) (r.opened j root macros n)
      (r.opened j root macros n).directory (r.plain_after (further j n)) outer _
    obtain ⟨hcycles, hkeys⟩ := hq.around hq' [.refuse (r.opened j root macros n) (r.span (further j n))
      (.includeCycle (s₁.macros.written (r.path (further j n))))]
    refine ⟨_, s', hr.trans ((Run.one hstep).trans hr'), ?_, hkeys⟩
    rw [hcycles]
    rfl
  | succ e ih =>
    obtain ⟨vs, s₁, hq, hr, hs₁⟩ := run_before (r.opened j root macros n) (r.opened j root macros n).directory outer hs
    have hb' := hb.cons (r.opened j root macros n) (r.opened j root macros n).directory (r.after (further j n))
    obtain ⟨o, ho, hof, hok, hon⟩ := open_of_not_mem hlinked (by omega) (hb'.next_not_mem (by omega))
    rw [← hs₁] at ho
    have hstep := Step.enter _ (r.opened j root macros n) _ (r.after (further j n)) outer s₁
      (r.span (further j n)) ho
    rw [hof, hok, hon] at hstep
    have hs' : s₁.macros.defineAll (r.before (further j (n + 1))) = r.table j macros (n + 1) := by
      rw [hs₁]
      rfl
    obtain ⟨us, s₂, hr₂, hone, hall⟩ := ih (by omega) hb' hs'
    obtain ⟨ws, s', hq', hr'⟩ := run_plain_leave t (r.key (further j n)) (r.opened j root macros n)
      (r.opened j root macros n).directory (r.plain_after (further j n)) outer s₂
    obtain ⟨hcycles, hkeys⟩ := hq.around hq'
      (.enter (r.key (further j (n + 1))) (r.opened j root macros (n + 1)) :: us)
    refine ⟨_, s', hr.trans ((Run.cons hstep hr₂).trans hr'), ?_, ?_⟩
    · rw [hcycles]
      exact hone
    · rw [hkeys, List.range'_succ]
      exact congrArg (r.key (further j (n + 1)) :: ·) hall

theorem run_ring (s : Resolution) (hs : s.macros = macros) :
    ∃ vs s', Run t ⟨[⟨r.key j, root, root.directory, r.nodes j⟩], s⟩ vs ⟨[], s'⟩ ∧
      (Visit.cycles vs).length = 1 ∧
      ∀ i, (r.key j :: vs.filterMap Visit.key?).count (r.key i) = 1 := by
  have hb : r.Below j 0 [] := by
    intro key
    simp
  have hs' : s.macros.defineAll (r.before (further j 0)) = r.table j macros 0 := by
    rw [hs, further_zero]
    rfl
  obtain ⟨vs, s', hr, hcycles, hkeys⟩ := run_from hlinked (Nat.zero_add k) hb hs'
  rw [further_zero] at hr
  refine ⟨vs, s', hr, hcycles, ?_⟩
  intro i
  have hall : r.key j :: vs.filterMap Visit.key? = (List.range (k + 1)).map (fun n => r.key (further j n)) := by
    rw [hkeys, List.range_eq_range', List.range'_succ, List.map_cons, further_zero]
  rw [hall]
  apply List.count_eq_one_of_mem
  · apply List.Nodup.map_on _ List.nodup_range
    intro n hn m hm h
    rw [List.mem_range] at hn hm
    exact further_inj j (by omega) (by omega) (key_injective h)
  · obtain ⟨n, hn, rfl⟩ := exists_further j i
    exact List.mem_map.mpr ⟨n, List.mem_range.mpr (by omega), rfl⟩

end Ring

namespace Run

variable {t : FileTree} {p q : Point} {v : Visit} {vs : List Visit}

theorem exists_step (h : Run t p vs q) (hv : v ∈ vs) :
    ∃ ws us p' q', Run t p ws p' ∧ Step t p' v q' ∧ Run t q' us q := by
  induction h with
  | refl => simp at hv
  | @cons p q r w vs hs hr ih =>
    rcases List.mem_cons.mp hv with rfl | hv
    · exact ⟨[], vs, p, q, .refl p, hs, hr⟩
    · obtain ⟨ws, us, p', q', hr₁, hs', hr₂⟩ := ih hv
      exact ⟨w :: ws, us, p', q', .cons hs hr₁, hs', hr₂⟩

end Run

def Point.Closes (t : FileTree) (p : Point) (f : Finding) : Prop :=
  ∃ frame outer raw ns l, p.frames = frame :: outer ∧ frame.file = f.position.file ∧
    frame.nodes = .inclusion raw f.position.span :: ns ∧
    t.locateFile? (frame.base.join ⟨p.state.macros.written raw⟩) = some l ∧
    t.key (frame.base.join ⟨p.state.macros.written raw⟩) ∈ p.chain ∧
    ∃ above ∈ p.frames, t.locateFile? above.file = some l

theorem Step.closes {t : FileTree} {p q : Point} {v : Visit} {f : Finding} (h : Step t p v q) (hp : p.Sound t)
    (hv : v.finding? = some f) (hf : f.isCycle = true) :
    p.Closes t f ∧ q.state = p.state.report f := by
  cases h with
  | leave => simp [Visit.finding?] at hv
  | node => simp [Visit.finding?] at hv
  | enter => simp [Visit.finding?] at hv
  | @refuse key file base ns outer s raw span problem ho =>
    obtain rfl := Option.some.inj hv
    refine ⟨?_, rfl⟩
    cases openInclude_eq_iff.mp ho with
    | @cycle l hu hl hc => exact ⟨_, outer, raw, ns, l, rfl, rfl, rfl, hl, hc, hp.open_of_mem hl hc⟩
    | _ => simp [Finding.isCycle] at hf

theorem run_enter {t : FileTree} {key : FileKey} {l : Location} {file base : Path} {raw : String} (span : Span)
    {ns ms : List Node} {outer : List Frame} {s : Resolution}
    (hu : (s.macros.expand raw).undefined = [])
    (hl : t.locateFile? (base.join ⟨s.macros.written raw⟩) = some l)
    (hc : t.key (base.join ⟨s.macros.written raw⟩) ∉ key :: outer.map Frame.key)
    (hn : t.nodes (base.join ⟨s.macros.written raw⟩) = .ok ms) :
    ∃ vs, Run t ⟨⟨key, file, base, .inclusion raw span :: ns⟩ :: outer, s⟩
      (.enter (t.key (base.join ⟨s.macros.written raw⟩)) (base.join ⟨s.macros.written raw⟩) :: vs)
      ⟨⟨key, file, base, ns⟩ :: outer,
        splice t (t.key (base.join ⟨s.macros.written raw⟩) :: key :: outer.map Frame.key)
          (base.join ⟨s.macros.written raw⟩) (base.join ⟨s.macros.written raw⟩).directory ms s⟩ := by
  obtain ⟨vs, hr⟩ := run_splice t (⟨key, file, base, ns⟩ :: outer) (t.key (base.join ⟨s.macros.written raw⟩))
    (base.join ⟨s.macros.written raw⟩) (base.join ⟨s.macros.written raw⟩).directory ms s
  have hstep := Step.enter key file base ns outer s span (openInclude_eq_ok hu hl hc hn)
  dsimp only at hstep
  exact ⟨vs, .cons hstep hr⟩

def FileTree.loop : FileTree :=
  .ofTexts [("a.sfz", 1), ("b.sfz", 2)]
    ["<global>\n#include \"b.sfz\"\nvolume=1", "#define $first a\n#include \"$first.sfz\""]
    ⟨by decide, by decide, by decide⟩

theorem FileTree.holds_loop :
    loop.Holds "a.sfz" 1 "<global>\n#include \"b.sfz\"\nvolume=1" ∧
    loop.Holds "b.sfz" 2 "#define $first a\n#include \"$first.sfz\"" :=
  ⟨holds_ofTexts _ (by decide) rfl (by decide), holds_ofTexts _ (by decide) rfl (by decide)⟩

theorem FileTree.nodes_loop :
    loop.nodes ⟨"a.sfz"⟩ =
      .ok [.header .global ⟨1, 1⟩, .inclusion "b.sfz" ⟨2, 1⟩, .opcode "volume" "1" ⟨3, 1⟩] ∧
    loop.nodes ⟨"b.sfz"⟩ = .ok [.define "first" "a" ⟨1, 1⟩, .inclusion "$first.sfz" ⟨2, 1⟩] :=
  ⟨holds_loop.1.nodes (by decide +kernel), holds_loop.2.nodes (by decide +kernel)⟩

def Ring.loop : Ring FileTree.loop 1 where
  file := fun
    | 0 => ⟨"a.sfz"⟩
    | 1 => ⟨"b.sfz"⟩
  place := fun
    | 0 => .ofNames ["a.sfz"]
    | 1 => .ofNames ["b.sfz"]
  before := fun
    | 0 => [.header .global ⟨1, 1⟩]
    | 1 => [.define "first" "a" ⟨1, 1⟩]
  path := fun
    | 0 => "b.sfz"
    | 1 => "$first.sfz"
  span := fun _ => ⟨2, 1⟩
  after := fun
    | 0 => [.opcode "volume" "1" ⟨3, 1⟩]
    | 1 => []
  placed := by
    intro i
    match i with
    | 0 => exact FileTree.holds_loop.1.canonical
    | 1 => exact FileTree.holds_loop.2.canonical
  distinct := by
    intro i j
    revert i j
    decide
  parsed := by
    intro i
    match i with
    | 0 => exact FileTree.nodes_loop.1
    | 1 => exact FileTree.nodes_loop.2
  plain_before := by decide
  plain_after := by decide

theorem Ring.linked_loop : Ring.loop.Linked 0 ⟨"a.sfz"⟩ .empty := by
  have hname : ∀ i, isFileName ((Ring.loop.file i).text) = true := by decide
  refine linked_of_names hname (by decide) ?_
  intro n hn
  match n with
  | 0 => exact ⟨by decide +kernel, by decide +kernel⟩
  | 1 => exact ⟨by decide +kernel, by decide +kernel⟩

end Sfz
