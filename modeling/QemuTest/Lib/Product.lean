import Mathlib.Data.List.Nodup
import Mathlib.Data.List.Forall2

/-!
# Products

Products of lists of choices: one choice from each list, the last list varying
fastest, and their disjoint unions. A product is listed along the positions of
its choices (`product_eq`), and positions are listed once each, so the listing
is a bijection also where choices repeat.
-/

namespace Product

variable {α β : Type}

/-- All ways to take one item from each list. -/
def product : List (List α) → List (List α)
  | [] => [[]]
  | L :: Ls => L.flatMap fun x => (product Ls).map (x :: ·)

@[simp] theorem product_nil : product ([] : List (List α)) = [[]] := rfl

theorem product_cons (L : List α) (Ls : List (List α)) :
    product (L :: Ls) = L.flatMap fun x => (product Ls).map (x :: ·) := rfl

theorem mem_product {Ls : List (List α)} {c : List α} :
    c ∈ product Ls ↔ List.Forall₂ (· ∈ ·) c Ls := by
  induction Ls generalizing c with
  | nil => simp
  | cons L Ls ih =>
      simp only [product_cons, List.mem_flatMap, List.mem_map, ih,
        List.forall₂_cons_right_iff]
      constructor
      · rintro ⟨x, hx, c', hc', rfl⟩
        exact ⟨x, c', hx, hc', rfl⟩
      · rintro ⟨x, c', hx, hc', rfl⟩
        exact ⟨x, hx, c', hc', rfl⟩

theorem nodup_product {Ls : List (List α)} (h : ∀ L ∈ Ls, L.Nodup) :
    (product Ls).Nodup := by
  induction Ls with
  | nil => simp
  | cons L Ls ih =>
      have hL := h L List.mem_cons_self
      have hrest := ih fun L' hL' => h L' (List.mem_cons_of_mem _ hL')
      rw [product_cons, List.nodup_flatMap]
      refine ⟨fun x _ => hrest.map fun a b hab => (List.cons.inj hab).2, ?_⟩
      refine hL.imp ?_
      intro x y hne
      simp only [Function.onFun, List.disjoint_left, List.mem_map, not_exists, not_and]
      rintro _ ⟨c, -, rfl⟩ c' - heq
      exact hne (List.cons.inj heq).1.symm

/-- The product of the images is the image of the product. -/
theorem product_map (f : α → β) (Ls : List (List α)) :
    product (Ls.map (List.map f)) = (product Ls).map (List.map f) := by
  induction Ls with
  | nil => rfl
  | cons L Ls ih =>
      rw [List.map_cons, product_cons, product_cons, ih, List.map_flatMap,
        List.flatMap_map]
      simp [List.map_map, Function.comp_def]

/-- Extending every prefix by every item, list after list, appends the product
to each prefix. -/
theorem foldl_extend (Ls : List (List α)) (prefixes : List (List α)) :
    Ls.foldl (fun result L => result.flatMap fun c => L.map fun x => c ++ [x])
        prefixes
      = prefixes.flatMap fun c => (product Ls).map (c ++ ·) := by
  induction Ls generalizing prefixes with
  | nil => simp
  | cons L Ls ih =>
      rw [List.foldl_cons, ih, List.flatMap_assoc]
      congr 1
      funext c
      rw [List.flatMap_map, product_cons, List.map_flatMap]
      simp [List.map_map, Function.comp_def]

/-! ## Positions -/

/-- The positions of the choices. -/
def positions (Ls : List (List α)) : List (List Nat) :=
  product (Ls.map fun L => List.range L.length)

/-- The items at given positions. -/
def itemsAt : List (List α) → List Nat → List α
  | L :: Ls, i :: is => L[i]?.toList ++ itemsAt Ls is
  | _, _ => []

theorem mem_positions {Ls : List (List α)} {is : List Nat} :
    is ∈ positions Ls ↔ List.Forall₂ (fun i L => i < L.length) is Ls := by
  rw [positions, mem_product, List.forall₂_map_right_iff]
  simp

theorem nodup_positions (Ls : List (List α)) : (positions Ls).Nodup := by
  refine nodup_product fun L hL => ?_
  obtain ⟨L', -, rfl⟩ := List.mem_map.mp hL
  exact List.nodup_range

theorem flatMap_range (L : List α) (f : α → List β) :
    L.flatMap f = (List.range L.length).flatMap fun i => L[i]?.toList.flatMap f := by
  induction L with
  | nil => rfl
  | cons x L ih =>
      rw [List.flatMap_cons, ih, List.length_cons, List.range_succ_eq_map,
        List.flatMap_cons, List.flatMap_map]
      simp

/-- The product, listed along its positions. -/
theorem product_eq (Ls : List (List α)) :
    product Ls = (positions Ls).map (itemsAt Ls) := by
  induction Ls with
  | nil => rfl
  | cons L Ls ih =>
      rw [positions, List.map_cons, product_cons, product_cons, flatMap_range,
        List.map_flatMap]
      refine List.flatMap_congr fun i hi => ?_
      rw [List.mem_range] at hi
      rw [List.getElem?_eq_getElem hi, ih, List.map_map]
      simp [positions, itemsAt, Function.comp_def, hi]

/-! ## Disjoint unions -/

/-- The positions in a disjoint union of products: which product, and the
positions in it. -/
def unionPositions (Lss : List (List (List α))) : List (Nat × List Nat) :=
  Lss.zipIdx.flatMap fun p => (positions p.1).map fun is => (p.2, is)

/-- The items at a position of the union. -/
def unionItemsAt (Lss : List (List (List α))) (t : Nat × List Nat) : List α :=
  itemsAt (Lss[t.1]?.getD []) t.2

theorem mem_unionPositions {Lss : List (List (List α))} {t : Nat × List Nat} :
    t ∈ unionPositions Lss ↔
      ∃ Ls, Lss[t.1]? = some Ls ∧
        List.Forall₂ (fun i L => i < L.length) t.2 Ls := by
  simp only [unionPositions, List.mem_flatMap, List.mem_map, Prod.exists,
    List.mk_mem_zipIdx_iff_getElem?]
  constructor
  · rintro ⟨Ls, a, hLs, is, his, rfl⟩
    exact ⟨Ls, hLs, mem_positions.mp his⟩
  · rintro ⟨Ls, hLs, his⟩
    exact ⟨Ls, t.1, hLs, t.2, mem_positions.mpr his, rfl⟩

theorem nodup_unionPositions (Lss : List (List (List α))) :
    (unionPositions Lss).Nodup := by
  rw [unionPositions, List.nodup_flatMap]
  refine ⟨fun p _ => (nodup_positions p.1).map fun a b hab => (Prod.mk.inj hab).2, ?_⟩
  have hidx : (Lss.zipIdx.map Prod.snd).Nodup := by
    rw [List.zipIdx_map_snd]
    exact List.nodup_range'
  refine (List.pairwise_map.mp hidx).imp ?_
  intro p q hne
  simp only [Function.onFun, List.disjoint_left, List.mem_map, not_exists, not_and]
  rintro _ ⟨is, -, rfl⟩ is' - heq
  exact hne (Prod.mk.inj heq).1.symm

/-- The union of the products, listed along its positions. -/
theorem flatMap_product_eq (Lss : List (List (List α))) :
    Lss.flatMap product = (unionPositions Lss).map (unionItemsAt Lss) := by
  have hfst : Lss.flatMap product
      = Lss.zipIdx.flatMap fun p => product p.1 := by
    conv_lhs => rw [← List.zipIdx_map_fst 0 Lss, List.flatMap_map]
  rw [hfst, unionPositions, List.map_flatMap]
  refine List.flatMap_congr fun p hp => ?_
  rw [product_eq, List.map_map]
  refine List.map_congr_left fun is _ => ?_
  have hget : Lss[p.2]? = some p.1 := List.mk_mem_zipIdx_iff_getElem?.mp hp
  simp [unionItemsAt, hget]

end Product
