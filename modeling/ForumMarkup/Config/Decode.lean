import ForumMarkup.Config.Datum
import ForumMarkup.Lookup.Tables
import ForumMarkup.Options

/-!
Contract: options and look-up tables as configuration.

Owns: for each type its reading from a datum and its writing as one, and `Config`,
the contents of a configuration file.

Fields that are not known have no effect.  A known field may be given once; in a
map with keys of its own the last value of a key counts.
-/

set_option autoImplicit false

namespace ForumMarkup

namespace Datum

/-- The value of a field that may be missing, but not be given twice. -/
def field? (entries : List (Text × Datum)) (name : String) : Option (Option Datum) :=
  match entries.filter fun entry => entry.1 == name.toList with
  | [] => some none
  | [(_, value)] => some (some value)
  | _ => none

def required? {α : Type} (entries : List (Text × Datum)) (name : String)
    (read? : Datum → Option α) : Option α := do
  let value? ← field? entries name
  read? (← value?)

/-- A field that has a default. -/
def optional? {α : Type} (entries : List (Text × Datum)) (name : String)
    (read? : Datum → Option α) (default : α) : Option α := do
  match ← field? entries name with
  | some value => read? value
  | none => return default

/-- A map with keys of its own. -/
def dictionary? {α : Type} (read? : Datum → Option α) (datum : Datum) :
    Option (Dictionary α) := do
  let entries ← datum.table?
  let pairs ← entries.mapM fun entry => (read? entry.2).map fun value =>
    (String.ofList entry.1, value)
  return .ofList pairs

def ofDictionary {α : Type} (write : α → Datum) (map : Dictionary α) : Datum :=
  .table (map.entries.map fun entry => (entry.1.toList, write entry.2))

def ofFields (fields : List (String × Datum)) : Datum :=
  .table (fields.map fun field => (field.1.toList, field.2))

end Datum

def SizeBand.ofDatum? (datum : Datum) : Option SizeBand := do
  let entries ← datum.table?
  return {
    min := ← Datum.required? entries "min" Datum.word?
    max := ← Datum.required? entries "max" Datum.word? }

def SizeBand.toDatum (band : SizeBand) : Datum :=
  .ofFields [("min", .integer band.min), ("max", .integer band.max)]

/-- Two bands of sizes, each with a default. -/
def SizeBands.ofDatum? (datum : Datum) : Option SizeBands := do
  let entries ← datum.table?
  let standard : SizeBands := {}
  return {
    small := ← Datum.optional? entries "small" SizeBand.ofDatum? standard.small
    big := ← Datum.optional? entries "big" SizeBand.ofDatum? standard.big }

def SizeBands.toDatum (bands : SizeBands) : Datum :=
  .ofFields [("small", bands.small.toDatum), ("big", bands.big.toDatum)]

def Options.ofDatum? (datum : Datum) : Option Options := do
  let entries ← datum.table?
  let standard : Options := {}
  return {
    inlineCode :=
      ← Datum.optional? entries "allow_inline_code" Datum.bool? standard.inlineCode
    traditionalBreaks :=
      ← Datum.optional? entries "traditional_linebreaks" Datum.bool? standard.traditionalBreaks
    sizeBands := ← Datum.optional? entries "size_bands" SizeBands.ofDatum? standard.sizeBands }

def Options.toDatum (options : Options) : Datum :=
  .ofFields [("allow_inline_code", .bool options.inlineCode),
    ("traditional_linebreaks", .bool options.traditionalBreaks),
    ("size_bands", options.sizeBands.toDatum)]

def QuotedPost.ofDatum? (datum : Datum) : Option QuotedPost := do
  let entries ← datum.table?
  return {
    username := ← Datum.required? entries "username" Datum.string?
    postNumber := ← Datum.required? entries "post_number" Datum.word?
    topicId := ← Datum.required? entries "topic_id" Datum.word? }

def QuotedPost.toDatum (post : QuotedPost) : Datum :=
  .ofFields [("username", .string post.username), ("post_number", .integer post.postNumber),
    ("topic_id", .integer post.topicId)]

def UrlSubstitution.ofDatum? (datum : Datum) : Option UrlSubstitution := do
  let entries ← datum.table?
  return {
    old := ← Datum.required? entries "from" Datum.string?
    new := ← Datum.required? entries "to" Datum.string? }

def UrlSubstitution.toDatum (substitution : UrlSubstitution) : Datum :=
  .ofFields [("from", .string substitution.old), ("to", .string substitution.new)]

/-- Look-up tables, each of which may be missing. -/
def LookupTables.ofDatum? (datum : Datum) : Option LookupTables := do
  let entries ← datum.table?
  let texts := Datum.dictionary? Datum.string?
  return {
    users := ← Datum.optional? entries "users" texts ∅
    smilies := ← Datum.optional? entries "smilies" texts ∅
    posts := ← Datum.optional? entries "posts" (Datum.dictionary? QuotedPost.ofDatum?) ∅
    uploads := ← Datum.optional? entries "uploads" texts ∅
    substitutions := ← Datum.optional? entries "url_rewrites"
      (fun value => value.list?.bind (·.mapM UrlSubstitution.ofDatum?)) [] }

def LookupTables.toDatum (tables : LookupTables) : Datum :=
  .ofFields [("users", .ofDictionary .string tables.users),
    ("smilies", .ofDictionary .string tables.smilies),
    ("posts", .ofDictionary QuotedPost.toDatum tables.posts),
    ("uploads", .ofDictionary .string tables.uploads),
    ("url_rewrites", .list (tables.substitutions.map UrlSubstitution.toDatum))]

structure Config where
  options : Options := {}
  tables : LookupTables := {}

/-- The contents of a configuration file, each part of which may be missing. -/
def Config.ofDatum? (datum : Datum) : Option Config := do
  let entries ← datum.table?
  return {
    options := ← Datum.optional? entries "convert" Options.ofDatum? {}
    tables := ← Datum.optional? entries "lookup" LookupTables.ofDatum? {} }

end ForumMarkup
