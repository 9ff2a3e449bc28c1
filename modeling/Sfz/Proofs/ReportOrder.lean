import Sfz.Report

namespace Sfz

theorem isLE_total {α : Type} {cmp : α → α → Ordering} [Std.OrientedCmp cmp] (a b : α) :
    (cmp a b).isLE = true ∨ (cmp b a).isLE = true := by
  have hswap : cmp b a = (cmp a b).swap := Std.OrientedCmp.eq_swap
  rw [hswap]
  cases cmp a b <;> decide

theorem transCmp_of_key {α β : Type} (cmp : β → β → Ordering) [h : Std.TransCmp cmp] (key : α → β) :
    Std.TransCmp (fun a b => cmp (key a) (key b)) where
  eq_swap := h.eq_swap
  isLE_trans := h.isLE_trans

namespace Path

namespace Component

def Before (a b : Component) : Prop :=
  a.rank < b.rank ∨ ∃ m n, a = .name m ∧ b = .name n ∧ m < n

def nameText : Component → String
  | .name n => n
  | _ => ""

theorem cmp_eq_compareLex : cmp = compareLex (compareOn rank) (compareOn nameText) := by
  funext a b
  cases a <;> cases b <;> rfl

theorem eq_of_rank {a b : Component} (hr : a.rank = b.rank) (hn : a.nameText = b.nameText) : a = b := by
  revert hr hn
  cases a <;> cases b <;> simp [rank, nameText]

instance : Std.TransCmp cmp := by
  rw [cmp_eq_compareLex]
  infer_instance

instance : Std.LawfulEqCmp cmp where
  compare_self := Std.ReflCmp.compare_self
  eq_of_compare {a b} h := by
    rw [cmp_eq_compareLex] at h
    obtain ⟨hr, hn⟩ := Ordering.then_eq_eq.mp h
    exact eq_of_rank (Std.LawfulEqCmp.eq_of_compare hr) (Std.LawfulEqCmp.eq_of_compare hn)

theorem cmp_eq_lt_iff {a b : Component} : a.cmp b = .lt ↔ a.Before b := by
  have hname (m n : String) : compare m n = .lt ↔ m < n := compareOfLessAndEq_eq_lt
  cases a <;> cases b <;> simp [cmp, Before, rank, Nat.compare_eq_lt, hname]

end Component

theorem cmpComponents_eq_compareLex : cmpComponents = List.compareLex Component.cmp := by
  funext as bs
  induction as generalizing bs with
  | nil =>
    cases bs with
    | nil => rw [cmpComponents, List.compareLex_nil_nil]
    | cons b bs => rw [cmpComponents, List.compareLex_nil_cons]
  | cons a as ih =>
    cases bs with
    | nil => rw [cmpComponents, List.compareLex_cons_nil]
    | cons b bs => rw [cmpComponents, List.compareLex_cons_cons, ih]

instance : Std.TransCmp cmpComponents := by
  rw [cmpComponents_eq_compareLex]
  infer_instance

instance : Std.LawfulEqCmp cmpComponents := by
  rw [cmpComponents_eq_compareLex]
  infer_instance

theorem cmpComponents_eq_lt_iff {as bs : List Component} :
    cmpComponents as bs = .lt ↔ List.Lex Component.Before as bs := by
  induction as generalizing bs with
  | nil => cases bs <;> simp [cmpComponents]
  | cons a as ih =>
    cases bs with
    | nil => simp [cmpComponents]
    | cons b bs =>
      rw [cmpComponents, Ordering.then_eq_lt, Component.cmp_eq_lt_iff, ih, List.cons_lex_cons_iff,
        Std.LawfulEqCmp.compare_eq_iff_eq]

theorem cmp_eq_eq_iff {a b : Path} : a.cmp b = .eq ↔ a.components = b.components := by
  rw [cmp, Std.LawfulEqCmp.compare_eq_iff_eq]

instance : Std.TransCmp cmp :=
  transCmp_of_key cmpComponents components

end Path

namespace Position

def NotAfter (a b : Position) : Prop :=
  List.Lex Path.Component.Before a.file.components b.file.components ∨
    a.file.components = b.file.components ∧
      (a.span.line < b.span.line ∨ a.span.line = b.span.line ∧ a.span.column ≤ b.span.column)

def SamePlace (a b : Position) : Prop :=
  a.file.components = b.file.components ∧ a.span = b.span

instance (a b : Position) : Decidable (a.SamePlace b) :=
  inferInstanceAs (Decidable (_ ∧ _))

instance : Std.TransCmp cmp := by
  have hfile := transCmp_of_key Path.cmp Position.file
  have hcmp : cmp = compareLex (fun a b => a.file.cmp b.file)
      (compareLex (compareOn (·.span.line)) (compareOn (·.span.column))) := rfl
  rw [hcmp]
  infer_instance

theorem le_iff_notAfter {a b : Position} : a.le b = true ↔ a.NotAfter b := by
  unfold le cmp NotAfter
  rw [Ordering.isLE_then_iff_or, Ordering.isLE_then_iff_or, Path.cmp_eq_eq_iff, Path.cmp,
    Path.cmpComponents_eq_lt_iff, Nat.compare_eq_lt, Nat.compare_eq_eq, Nat.isLE_compare]

theorem le_total (a b : Position) : (a.le b || b.le a) = true := by
  rw [Bool.or_eq_true]
  exact isLE_total a b

theorem SamePlace.le {a b : Position} (h : a.SamePlace b) : a.le b = true := by
  rw [le_iff_notAfter]
  exact .inr ⟨h.1, .inr (by simp [h.2])⟩

theorem SamePlace.trans_symm {a b c : Position} (hb : b.SamePlace a) (hc : c.SamePlace a) : b.SamePlace c :=
  ⟨hb.1.trans hc.1.symm, hb.2.trans hc.2.symm⟩

end Position

namespace Report

inductive Collecting
  | push (f : Finding)
  | extend (others : List Finding)

def collect (found : List Finding) : Collecting → List Finding
  | .push f => found ++ [f]
  | .extend others => found ++ others

def collected (calls : List Collecting) : List Finding :=
  calls.foldl collect []

def consume : Nat → Report → List (Option Finding) × Report
  | 0, r => ([], r)
  | n + 1, r => (r.next.1 :: (r.next.2.consume n).1, (r.next.2.consume n).2)

theorem consume_eq (n : Nat) (r : Report) :
    r.consume n = ((r.remaining.take n).map some ++ List.replicate (n - r.remaining.length) none,
      ⟨r.remaining.drop n⟩) := by
  induction n generalizing r with
  | zero => simp [consume]
  | succ n ih =>
    obtain ⟨remaining⟩ := r
    rw [consume, ih]
    cases remaining with
    | nil => simp [next, List.replicate_succ]
    | cons f rest => simp [next]

theorem filter_ofFindings (found : List Finding) (p : Position) :
    (ofFindings found).remaining.filter (fun f => f.position.SamePlace p) =
      found.filter (fun f => f.position.SamePlace p) := by
  have hperm := List.mergeSort_perm found (fun a b => a.position.le b.position)
  have hordered : (found.filter (fun f => f.position.SamePlace p)).Pairwise
      (fun a b => a.position.le b.position = true) := by
    apply List.pairwise_of_forall_mem_list
    intro f hf g hg
    have hf := of_decide_eq_true (List.mem_filter.mp hf).2
    have hg := of_decide_eq_true (List.mem_filter.mp hg).2
    exact (hf.trans_symm hg).le
  have hsub := List.sublist_mergeSort (fun _ _ _ => Std.TransCmp.isLE_trans)
    (fun _ _ => Position.le_total _ _) hordered List.filter_sublist
  have hsub := hsub.filter (fun f => f.position.SamePlace p)
  rw [List.filter_filter, List.filter_congr (fun _ _ => Bool.and_self _)] at hsub
  exact (hsub.eq_of_length (hperm.filter _).length_eq.symm).symm

theorem ofFindings_is_stable_sort (calls : List Collecting) :
    let found := collected calls
    let report := ofFindings found
    report.remaining.Perm found ∧
    report.remaining.Pairwise (fun f g => f.position.NotAfter g.position) ∧
    (∀ p : Position, report.remaining.filter (fun f => f.position.SamePlace p) =
      found.filter (fun f => f.position.SamePlace p)) ∧
    (∀ a b : Path, (a.cmp b = .eq ↔ a.components = b.components) ∧
      (a.cmp b = .lt ↔ List.Lex Path.Component.Before a.components b.components)) ∧
    ((∀ a : Path, (a.cmp a).isLE) ∧ (∀ a b : Path, (a.cmp b).isLE ∨ (b.cmp a).isLE) ∧
      ∀ a b c : Path, (a.cmp b).isLE → (b.cmp c).isLE → (a.cmp c).isLE) ∧
    ∀ n, (report.consume n).1 =
        (report.remaining.take n).map some ++ List.replicate (n - found.length) none ∧
      ((report.consume n).2.hasErrors = true ↔ ∃ f ∈ report.remaining.drop n, f.severity = .error) := by
  intro found report
  refine ⟨List.mergeSort_perm _ _, ?_, filter_ofFindings found, ?_, ?_, ?_⟩
  · have hsorted : report.remaining.Pairwise (fun f g => f.position.le g.position = true) :=
      List.pairwise_mergeSort (fun _ _ _ => Std.TransCmp.isLE_trans) (fun _ _ => Position.le_total _ _) found
    exact hsorted.imp Position.le_iff_notAfter.mp
  · intro a b
    exact ⟨Path.cmp_eq_eq_iff, Path.cmpComponents_eq_lt_iff⟩
  · exact ⟨fun a => by simp [Path.cmp_eq_eq_iff.mpr rfl], isLE_total, fun a b c => Std.TransCmp.isLE_trans⟩
  · intro n
    have hlength : report.remaining.length = found.length := (List.mergeSort_perm _ _).length_eq
    rw [consume_eq, hlength]
    refine ⟨rfl, ?_⟩
    simp [hasErrors, Finding.isError]

def brass : List Collecting :=
  [.push ⟨.unknownOpcode, ⟨⟨"horn"⟩, 1, 1⟩, some "kee"⟩,
    .extend [⟨.duplicateOpcode, ⟨⟨"brass//tuba"⟩, 3, 2⟩, some "key"⟩, ⟨.fileNotFound, ⟨⟨"brass/tuba"⟩, 3, 2⟩, none⟩],
    .push ⟨.negativeCurve, ⟨⟨"brass"⟩, 9, 1⟩, some "pan_curvecc1"⟩]

theorem ofFindings_is_stable_sort_brass :
    (ofFindings (collected brass)).remaining.filter (fun f => f.position.SamePlace ⟨⟨"brass/./tuba/"⟩, 3, 2⟩) =
      [⟨.duplicateOpcode, ⟨⟨"brass//tuba"⟩, 3, 2⟩, some "key"⟩, ⟨.fileNotFound, ⟨⟨"brass/tuba"⟩, 3, 2⟩, none⟩] ∧
    (Path.cmp ⟨"brass"⟩ ⟨"brass//tuba"⟩).isLE ∧ (Path.cmp ⟨"brass//tuba"⟩ ⟨"brass/tuba"⟩).isLE ∧
    (Path.cmp ⟨"brass"⟩ ⟨"brass/tuba"⟩).isLE := by
  obtain ⟨-, -, hstable, -, ⟨-, -, htrans⟩, -⟩ := ofFindings_is_stable_sort brass
  have hfirst : (Path.cmp ⟨"brass"⟩ ⟨"brass//tuba"⟩).isLE := by decide +kernel
  have hsecond : (Path.cmp ⟨"brass//tuba"⟩ ⟨"brass/tuba"⟩).isLE := by decide +kernel
  refine ⟨?_, hfirst, hsecond, htrans _ _ _ hfirst hsecond⟩
  rw [hstable]
  decide +kernel

end Report

end Sfz
