import Reflowfy.Paging.Fallible
import Reflowfy.Sources.Base
import Reflowfy.Value

namespace Reflowfy.ParameterResolver

variable (render : String → Except TemplateError String)

-- `resolve` of any object; the keys of a dict, tuples and primitives stay as they are.
mutual

def resolve_value : Value → Except Raised Value
  | .dict entries => .dict <$> resolve_entries entries
  | .list items => .list <$> resolve_items items
  | .str s => .str <$> resolve render s
  | .None => .ok .None
  | .bool b => .ok (.bool b)
  | .int n => .ok (.int n)
  | .float text => .ok (.float text)
  | .bytes text => .ok (.bytes text)
  | .tuple items => .ok (.tuple items)
  | .object attributes => .ok (.object attributes)
  | .other text => .ok (.other text)

def resolve_items : List Value → Except Raised (List Value)
  | [] => .ok []
  | item :: items => do
      let item ← resolve_value item
      let items ← resolve_items items
      pure (item :: items)

def resolve_entries : List (Key × Value) → Except Raised (List (Key × Value))
  | [] => .ok []
  | (k, v) :: entries => do
      let v ← resolve_value v
      let entries ← resolve_entries entries
      pure ((k, v) :: entries)

end

-- The strings in an object that may be templates.
mutual

def strings : Value → List String
  | .dict entries => entry_strings entries
  | .list items => item_strings items
  | .str s => [s]
  | .None | .bool _ | .int _ | .float _ | .bytes _ | .tuple _ | .object _ | .other _ => []

def item_strings : List Value → List String
  | [] => []
  | item :: items => strings item ++ item_strings items

def entry_strings : List (Key × Value) → List String
  | [] => []
  | (_, v) :: entries => strings v ++ entry_strings entries

end

-- An object that is as it was once its templates are rendered.
def Plain (v : Value) : Prop := resolve_value render v = .ok v

variable {render}

mutual

-- Rendering leaves an object alone iff it leaves every string of it alone.
theorem plain_iff : (v : Value) →
    (resolve_value render v = .ok v ↔ ∀ s ∈ strings v, resolve render s = .ok s)
  | .dict entries => by
      simp only [resolve_value, strings, ← entries_plain_iff entries,
        Paging.map_eq_ok, Value.dict.injEq]
      exact ⟨fun ⟨_, h, heq⟩ => heq ▸ h, fun h => ⟨_, h, rfl⟩⟩
  | .list items => by
      simp only [resolve_value, strings, ← items_plain_iff items,
        Paging.map_eq_ok, Value.list.injEq]
      exact ⟨fun ⟨_, h, heq⟩ => heq ▸ h, fun h => ⟨_, h, rfl⟩⟩
  | .str s => by
      simp only [resolve_value, strings, List.forall_mem_singleton,
        Paging.map_eq_ok, Value.str.injEq]
      exact ⟨fun ⟨_, h, heq⟩ => heq ▸ h, fun h => ⟨_, h, rfl⟩⟩
  | .None | .bool _ | .int _ | .float _ | .bytes _ | .tuple _ | .object _ | .other _ => by
      simp [resolve_value, strings]

theorem items_plain_iff : (items : List Value) →
    (resolve_items render items = .ok items ↔ ∀ s ∈ item_strings items, resolve render s = .ok s)
  | [] => by simp [resolve_items, item_strings]
  | item :: items => by
      simp only [resolve_items, item_strings, List.forall_mem_append, ← plain_iff item,
        ← items_plain_iff items,
        Paging.bind_eq_ok, pure, Except.pure, Except.ok.injEq, List.cons.injEq]
      constructor
      · rintro ⟨_, hitem, _, hitems, rfl, rfl⟩
        exact ⟨hitem, hitems⟩
      · rintro ⟨hitem, hitems⟩
        exact ⟨item, hitem, items, hitems, rfl, rfl⟩

theorem entries_plain_iff : (entries : List (Key × Value)) →
    (resolve_entries render entries = .ok entries ↔
      ∀ s ∈ entry_strings entries, resolve render s = .ok s)
  | [] => by simp [resolve_entries, entry_strings]
  | (k, v) :: entries => by
      simp only [resolve_entries, entry_strings, List.forall_mem_append, ← plain_iff v,
        ← entries_plain_iff entries,
        Paging.bind_eq_ok, pure, Except.pure, Except.ok.injEq, List.cons.injEq,
          Prod.mk.injEq, true_and]
      constructor
      · rintro ⟨_, hv, _, hentries, rfl, rfl⟩
        exact ⟨hv, hentries⟩
      · rintro ⟨hv, hentries⟩
        exact ⟨v, hv, entries, hentries, rfl, rfl⟩

end

-- An object renders iff every string of it does.
mutual

theorem renders_iff : (v : Value) →
    ((∃ v', resolve_value render v = .ok v') ↔ ∀ s ∈ strings v, ∃ s', resolve render s = .ok s')
  | .dict entries => by
      simp only [resolve_value, strings, ← entries_render_iff entries, Paging.map_eq_ok]
      exact ⟨fun ⟨_, entries', h, _⟩ => ⟨entries', h⟩, fun ⟨entries', h⟩ => ⟨_, entries', h, rfl⟩⟩
  | .list items => by
      simp only [resolve_value, strings, ← items_render_iff items, Paging.map_eq_ok]
      exact ⟨fun ⟨_, items', h, _⟩ => ⟨items', h⟩, fun ⟨items', h⟩ => ⟨_, items', h, rfl⟩⟩
  | .str s => by
      simp only [resolve_value, strings, List.forall_mem_singleton, Paging.map_eq_ok]
      exact ⟨fun ⟨_, s', h, _⟩ => ⟨s', h⟩, fun ⟨s', h⟩ => ⟨_, s', h, rfl⟩⟩
  | .None | .bool _ | .int _ | .float _ | .bytes _ | .tuple _ | .object _ | .other _ => by
      simp [resolve_value, strings]

theorem items_render_iff : (items : List Value) →
    ((∃ items', resolve_items render items = .ok items') ↔ ∀ s ∈ item_strings items, ∃ s',
      resolve render s = .ok s')
  | [] => by simp [resolve_items, item_strings]
  | item :: items => by
      simp only [resolve_items, item_strings, List.forall_mem_append, ← renders_iff item,
        ← items_render_iff items,
        Paging.bind_eq_ok, pure, Except.pure, Except.ok.injEq]
      constructor
      · rintro ⟨_, item', hitem, items', hitems, -⟩
        exact ⟨⟨item', hitem⟩, items', hitems⟩
      · rintro ⟨⟨item', hitem⟩, items', hitems⟩
        exact ⟨_, item', hitem, items', hitems, rfl⟩

theorem entries_render_iff : (entries : List (Key × Value)) →
    ((∃ entries', resolve_entries render entries = .ok entries') ↔
      ∀ s ∈ entry_strings entries, ∃ s', resolve render s = .ok s')
  | [] => by simp [resolve_entries, entry_strings]
  | (k, v) :: entries => by
      simp only [resolve_entries, entry_strings, List.forall_mem_append, ← renders_iff v,
        ← entries_render_iff entries,
        Paging.bind_eq_ok, pure, Except.pure, Except.ok.injEq]
      constructor
      · rintro ⟨_, v', hv, entries', hentries, -⟩
        exact ⟨⟨v', hv⟩, entries', hentries⟩
      · rintro ⟨⟨v', hv⟩, entries', hentries⟩
        exact ⟨_, v', hv, entries', hentries, rfl⟩

end

-- String by string, an object renders to the object it renders to.
mutual

theorem strings_resolved : (v v' : Value) → resolve_value render v = .ok v' →
    List.Forall₂ (fun s s' => resolve render s = .ok s') (strings v) (strings v')
  | .dict entries, v', h => by
      obtain ⟨entries', hentries, rfl⟩ := Paging.map_eq_ok.mp h
      exact entry_strings_resolved entries entries' hentries
  | .list items, v', h => by
      obtain ⟨items', hitems, rfl⟩ := Paging.map_eq_ok.mp h
      exact item_strings_resolved items items' hitems
  | .str s, v', h => by
      obtain ⟨s', hs, rfl⟩ := Paging.map_eq_ok.mp h
      exact .cons hs .nil
  | .None, _, h | .bool _, _, h | .int _, _, h | .float _, _, h | .bytes _, _, h
  | .tuple _, _, h | .object _, _, h
  | .other _, _, h => by
      rw [← Except.ok.inj h]
      exact .nil

theorem item_strings_resolved : (items items' : List Value) →
    resolve_items render items = .ok items' →
    List.Forall₂ (fun s s' => resolve render s = .ok s') (item_strings items) (item_strings items')
  | [], items', h => by
      rw [← Except.ok.inj h]
      exact .nil
  | item :: items, items', h => by
      simp only [resolve_items, Paging.bind_eq_ok, pure, Except.pure, Except.ok.injEq] at h
      obtain ⟨item', hitem, rest, hrest, rfl⟩ := h
      exact List.rel_append (strings_resolved item item' hitem)
        (item_strings_resolved items rest hrest)

theorem entry_strings_resolved : (entries entries' : List (Key × Value)) →
    resolve_entries render entries = .ok entries' →
    List.Forall₂ (fun s s' => resolve render s = .ok s') (entry_strings entries)
      (entry_strings entries')
  | [], entries', h => by
      rw [← Except.ok.inj h]
      exact .nil
  | (k, v) :: entries, entries', h => by
      simp only [resolve_entries, Paging.bind_eq_ok, pure, Except.pure, Except.ok.injEq] at h
      obtain ⟨v', hv, rest, hrest, rfl⟩ := h
      exact List.rel_append (strings_resolved v v' hv) (entry_strings_resolved entries rest hrest)

end

theorem mem_item_strings {s : String} {items : List Value} : s ∈ item_strings items ↔
    ∃ item ∈ items, s ∈ strings item := by
  induction items with
  | nil => simp [item_strings]
  | cons item items ih => simp [item_strings, ih]

end Reflowfy.ParameterResolver
