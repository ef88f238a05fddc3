import PdesMas.Library.Pipes
import PdesMas.Library.TreeRouting

/-!
Order of messages that are routed to a moving object. Every ordered pair of
vertices has a first-in-first-out pipe; messages enter the tree from a source
outside, and a vertex forwards what it gets along its pointer. A message stays
ahead of a later one as long as it does not cross the object on an edge.
-/

universe u v

namespace TreeRouting

variable {α : Type u} {ι : Type v} [DecidableEq α] {T : TreeRouting α}
  {inside : α → Prop} {source parent : α} {pipe : Pipes α ι} {p p' : Place α} {r m : ι}
  {c d : α}

/-- On the edge from `c` to `d` the message `r` is on its way ahead of every `m`: what is
not behind it in the same pipe is on its way to what lies behind the edge. -/
structure Ahead (T : TreeRouting α) (inside : α → Prop) (source parent : α)
    (pipe : Pipes α ι) (p : Place α) (r m : ι) (c d : α) : Prop where
  ends : inside d
  edge : (c = source ∧ d = parent) ∨ (inside c ∧ T.adj c d ∧ T.Behind c d parent)
  front : inside c → ¬ T.Behind c d p.target
  order : ∃ before after, pipe c d = before ++ r :: after ∧ r ∉ before ∧ m ∉ before
  others : ∀ e f, m ∈ pipe e f → (e = c ∧ f = d) ∨ (inside c ∧ T.Behind c d f)

/-- The object does not cross `r`. -/
def Apart (pipe : Pipes α ι) (p : Place α) (r : ι) : Prop :=
  ∀ a b, p = .move a b → r ∉ pipe b a

omit [DecidableEq α] in
theorem Ahead.mem (h : T.Ahead inside source parent pipe p r m c d) : r ∈ pipe c d := by
  obtain ⟨before, after, hpipe, _⟩ := h.order
  simp [hpipe]

/-- A message put behind what is not `m` is ahead of `m` there. -/
private theorem order_push {l : List ι} (hm : m ∉ l) :
    ∃ before after, l ++ [r] = before ++ r :: after ∧ r ∉ before ∧ m ∉ before := by
  by_cases hr : r ∈ l
  · obtain ⟨before, after, hl, hbefore⟩ := List.eq_append_cons_of_mem hr
    refine ⟨before, after ++ [r], by rw [hl, List.append_assoc, List.cons_append], hbefore, ?_⟩
    exact fun hmem => hm (hl ▸ List.mem_append_left _ hmem)
  · exact ⟨l, [], rfl, hr, hm⟩

/-- A message that enters is ahead of what has not been sent. -/
theorem ahead_of_push (hsource : ¬ inside source) (hparent : inside parent)
    (hm : ∀ a b, m ∉ pipe a b) :
    T.Ahead inside source parent (pipe.push source parent r) p r m source parent := by
  refine ⟨hparent, .inl ⟨rfl, rfl⟩, fun h => absurd h hsource, ?_, fun e f hmem => ?_⟩
  · rw [Pipes.push_self]
    exact order_push (hm _ _)
  · rcases Pipes.mem_push hmem with hmem | ⟨he, hf, _⟩
    · exact absurd hmem (hm e f)
    · exact .inl ⟨he, hf⟩

/-- A message enters or goes on, not overtaking. -/
theorem Ahead.push (h : T.Ahead inside source parent pipe p r m c d) {a b : α} {i : ι}
    (hi : i = m → (a = c ∧ b = d) ∨ (inside c ∧ T.Behind c d b)) :
    T.Ahead inside source parent (pipe.push a b i) p r m c d := by
  obtain ⟨before, after, hpipe, hr, hm⟩ := h.order
  refine ⟨h.ends, h.edge, h.front, ?_, fun e f hmem => ?_⟩
  · by_cases hab : c = a ∧ d = b
    · refine ⟨before, after ++ [i], ?_, hr, hm⟩
      obtain ⟨rfl, rfl⟩ := hab
      rw [Pipes.push_self, hpipe, List.append_assoc, List.cons_append]
    · exact ⟨before, after, (pipe.push_of_ne i hab).trans hpipe, hr, hm⟩
  · rcases Pipes.mem_push hmem with hmem | ⟨rfl, rfl, rfl⟩
    · exact h.others e f hmem
    · exact hi rfl

/-- A later message enters at the same place. -/
theorem Ahead.enter (h : T.Ahead inside source parent pipe p r m c d) {a b : α} {i : ι}
    (hi : i = m → a = source ∧ b = parent) :
    T.Ahead inside source parent (pipe.push a b i) p r m c d := by
  refine h.push fun heq => ?_
  obtain ⟨rfl, rfl⟩ := hi heq
  rcases h.edge with ⟨rfl, rfl⟩ | ⟨hc, _, hbehind⟩
  · exact .inl ⟨rfl, rfl⟩
  · exact .inr ⟨hc, hbehind⟩

/-- The head of a pipe is taken out; it is `m` only behind the edge of `r`. -/
theorem Ahead.pop (h : T.Ahead inside source parent pipe p r m c d) {a b : α} {i : ι}
    {rest : List ι} (hpipe : pipe a b = i :: rest) (hi : ¬ (c = a ∧ d = b ∧ i = r)) :
    T.Ahead inside source parent (pipe.put a b rest) p r m c d ∧
      (i = m → inside c ∧ T.Behind c d b) := by
  obtain ⟨before, after, horder, hr, hm⟩ := h.order
  by_cases hab : c = a ∧ d = b
  · obtain ⟨rfl, rfl⟩ := hab
    cases before with
    | nil => exact absurd ⟨rfl, rfl, (List.cons.inj (hpipe.symm.trans horder)).1⟩ hi
    | cons i' before =>
        obtain ⟨rfl, hrest⟩ := List.cons.inj (hpipe.symm.trans horder)
        refine ⟨⟨h.ends, h.edge, h.front, ⟨before, after, ?_, ?_, ?_⟩, fun e f hmem => ?_⟩, ?_⟩
        · rw [Pipes.put_self]
          exact hrest
        · exact fun hmem => hr (List.mem_cons_of_mem _ hmem)
        · exact fun hmem => hm (List.mem_cons_of_mem _ hmem)
        · exact h.others e f (Pipes.mem_put_tail hpipe hmem)
        · rintro rfl
          exact absurd List.mem_cons_self hm
  · refine ⟨⟨h.ends, h.edge, h.front, ⟨before, after, ?_, hr, hm⟩, fun e f hmem => ?_⟩, ?_⟩
    · exact (pipe.put_of_ne rest hab).trans horder
    · exact h.others e f (Pipes.mem_put_tail hpipe hmem)
    · rintro rfl
      rcases h.others a b (by simp [hpipe]) with ⟨ha, hb⟩ | hbehind
      · exact absurd ⟨ha.symm, hb.symm⟩ hab
      · exact hbehind

/-- What is taken out where the object is is not `m`, as long as `r` is on its way. -/
theorem Ahead.take (h : T.Ahead inside source parent pipe p r m c d) {a b : α} {i : ι}
    {rest : List ι} (hpipe : pipe a b = i :: rest) (hp : p = .rest b) (hi : i ≠ r) :
    T.Ahead inside source parent (pipe.put a b rest) p r m c d ∧ i ≠ m := by
  obtain ⟨hahead, hm⟩ := h.pop hpipe fun heq => hi heq.2.2
  refine ⟨hahead, fun heq => ?_⟩
  obtain ⟨hc, hbehind⟩ := hm heq
  exact h.front hc (hp ▸ hbehind)

/-- From a vertex that the object is not about to reach the pointer leads towards it. -/
private theorem pointer_eq_nextHop (hp : p ≠ .rest d) (hcross : ∀ a, p ≠ .move a d) :
    d ≠ p.target ∧ T.pointer p d = T.nextHop d p.target := by
  cases p with
  | rest h =>
      have hne : d ≠ h := fun heq => hp (heq ▸ rfl)
      exact ⟨hne, if_neg hne⟩
  | move s t =>
      have hne : d ≠ t := fun heq => hcross s (heq ▸ rfl)
      exact ⟨hne, if_neg hne⟩

/-- The message itself goes on to the next edge. -/
private theorem Ahead.advance (h : T.Ahead inside source parent pipe p r m c d)
    {g : α} {rest : List ι} (hpipe : pipe c d = r :: rest) (hsource : ¬ inside source)
    (hg : g = T.pointer p d) (hadj : T.adj d g) (hginside : inside g) (hp : p ≠ .rest d)
    (hcross : Apart ((pipe.put c d rest).push d g r) p r) :
    T.Ahead inside source parent ((pipe.put c d rest).push d g r) p r m d g := by
  have hnomove : ∀ a, p ≠ .move a d := by
    rintro a rfl
    have hga : g = a := by rw [hg, pointer, if_pos rfl]
    exact hcross a d rfl (by simp [hga])
  obtain ⟨hdt, hhop⟩ := pointer_eq_nextHop hp hnomove (T := T)
  rw [hhop] at hg
  -- the way forward does not turn back
  have hback : g ≠ c := by
    rintro rfl
    rcases h.edge with ⟨rfl, rfl⟩ | ⟨hc, _, _⟩
    · exact hsource hginside
    · exact T.nextHop_ne_of_not_behind (h.front hc) hdt hg.symm
  have hextend : ∀ x, T.Behind c d x → T.Behind d g x := fun x hx => hx.extend hadj hback
  refine ⟨hginside, .inr ⟨h.ends, hadj, ?_⟩, fun _ => hg ▸ T.not_behind_nextHop hdt, ?_,
    fun e f hmem => ?_⟩
  · rcases h.edge with ⟨_, rfl⟩ | ⟨_, _, hbehind⟩
    · exact T.behind_source hadj
    · exact hextend _ hbehind
  · rw [Pipes.push_self, Pipes.put_of_ne _ _ fun heq => T.adj_ne hadj heq.2.symm]
    refine order_push fun hmem => ?_
    rcases h.others d g hmem with ⟨_, hgd⟩ | ⟨_, hbehind⟩
    · exact T.adj_ne hadj hgd.symm
    · exact hback ((T.nextHop_of_adj hadj).symm.trans hbehind.2)
  · rcases Pipes.mem_push hmem with hmem | ⟨he, hf, _⟩
    · refine .inr ⟨h.ends, ?_⟩
      rcases h.others e f (Pipes.mem_put_tail hpipe hmem) with ⟨_, rfl⟩ | ⟨_, hbehind⟩
      · exact T.behind_source hadj
      · exact hextend _ hbehind
    · exact .inl ⟨he, hf⟩

/-- A vertex forwards the head of a pipe along its pointer. -/
theorem Ahead.forward (h : T.Ahead inside source parent pipe p r m c d) {a b g : α} {i : ι}
    {rest : List ι} (hpipe : pipe a b = i :: rest) (hsource : ¬ inside source)
    (hg : g = T.pointer p b) (hadj : T.adj b g) (hginside : inside g) (hp : p ≠ .rest b)
    (hcross : Apart ((pipe.put a b rest).push b g i) p r) :
    ∃ c' d', T.Ahead inside source parent ((pipe.put a b rest).push b g i) p r m c' d' := by
  by_cases hi : c = a ∧ d = b ∧ i = r
  · obtain ⟨rfl, rfl, rfl⟩ := hi
    exact ⟨d, g, h.advance hpipe hsource hg hadj hginside hp hcross⟩
  · obtain ⟨hahead, hm⟩ := h.pop hpipe hi
    refine ⟨c, d, hahead.push fun heq => ?_⟩
    obtain ⟨hc, hbehind⟩ := hm heq
    rcases hbehind.step hadj with hstep | ⟨hbc, hgd⟩
    · exact .inr ⟨hc, hstep⟩
    · exact .inl ⟨hbc, hgd⟩

omit [DecidableEq α] in
/-- What leaves the tree may be lost. -/
theorem Ahead.lose {pipe' : Pipes α ι} (h : T.Ahead inside source parent pipe p r m c d)
    (hinside : ∀ a b, inside b → pipe' a b = pipe a b)
    (hfewer : ∀ a b, ∀ i ∈ pipe' a b, i ∈ pipe a b) :
    T.Ahead inside source parent pipe' p r m c d :=
  ⟨h.ends, h.edge, h.front, (hinside c d h.ends).symm ▸ h.order,
    fun e f hmem => h.others e f (hfewer e f m hmem)⟩

omit [DecidableEq α] in
/-- The object may depart over an edge on which it does not cross `r`. -/
theorem Ahead.move (h : T.Ahead inside source parent pipe p r m c d)
    (hp : p'.target = p.target ∨ ∃ x t, T.adj x t ∧ p = .rest x ∧ p' = .move x t)
    (hcross : Apart pipe p' r) : T.Ahead inside source parent pipe p' r m c d := by
  refine ⟨h.ends, h.edge, fun hc hbehind => ?_, h.order, h.others⟩
  rcases hp with htarget | ⟨x, t, hadj, rfl, rfl⟩
  · exact h.front hc (htarget ▸ hbehind)
  · rcases Behind.step (show T.Behind c d t from hbehind) (T.adj_symm hadj) with
      hx | ⟨htc, hxd⟩
    · exact h.front hc hx
    · exact hcross x t rfl (htc ▸ hxd ▸ h.mem)

end TreeRouting
