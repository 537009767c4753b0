import TreeTemplate.Binding.Basic
import TreeTemplate.Binding.Cache
import TreeTemplate.Binding.Set
import TreeTemplate.CommandLine.Arguments
import TreeTemplate.CommandLine.Run
import TreeTemplate.Config.Basic
import TreeTemplate.Config.Reader
import TreeTemplate.Context.Basic
import TreeTemplate.Context.Callback
import TreeTemplate.Context.Eval
import TreeTemplate.Context.Pool
import TreeTemplate.Context.Run
import TreeTemplate.Dict
import TreeTemplate.Document.Basic
import TreeTemplate.Document.Edit
import TreeTemplate.Document.Writer
import TreeTemplate.Engine
import TreeTemplate.Expression.Basic
import TreeTemplate.Expression.Cache
import TreeTemplate.Expression.Error
import TreeTemplate.Expression.Lexer
import TreeTemplate.Expression.Lists
import TreeTemplate.Expression.Parser
import TreeTemplate.Expression.Token
import TreeTemplate.Function.Registry
import TreeTemplate.Function.Standard
import TreeTemplate.Main
import TreeTemplate.Markup.Basic
import TreeTemplate.Markup.Entity
import TreeTemplate.Markup.Reader
import TreeTemplate.Markup.Style
import TreeTemplate.Number.Binary64
import TreeTemplate.Number.Layout
import TreeTemplate.Number.Reading
import TreeTemplate.Number.Shortest
import TreeTemplate.Render.Apply
import TreeTemplate.Render.Fill
import TreeTemplate.Render.Instances
import TreeTemplate.Render.Stage
import TreeTemplate.Report.Check
import TreeTemplate.Report.Fingerprints
import TreeTemplate.Template.Lookup
import TreeTemplate.Text.Blank
import TreeTemplate.Text.Case
import TreeTemplate.Text.Letters
import TreeTemplate.Text.Quoted
import TreeTemplate.Text.Ranges
import TreeTemplate.Text.Split
import TreeTemplate.Value.Basic
import TreeTemplate.Value.Coercion
import TreeTemplate.Value.Json
import TreeTemplate.Value.Path
import TreeTemplate.Value.Reader
import TreeTemplate.Walk
import TreeTemplate.Proofs.Document.Arena
import TreeTemplate.Proofs.Document.Tree
import TreeTemplate.Proofs.Document.Regrowth
import TreeTemplate.Proofs.Document.Growth
import TreeTemplate.Proofs.Document.Sibling
import TreeTemplate.Proofs.Document.Removal
import TreeTemplate.Proofs.Dict
import TreeTemplate.Proofs.Document.Planting
import TreeTemplate.Proofs.Markup.Entity
import TreeTemplate.Proofs.Markup.Normal
import TreeTemplate.Proofs.Markup.Soundness
import TreeTemplate.Proofs.Document.RoundTrip
import TreeTemplate.Proofs.Binding.Scan
import TreeTemplate.Proofs.Context.Eval
import TreeTemplate.Proofs.Context.Pool
import TreeTemplate.Proofs.Walk
import TreeTemplate.Proofs.Render.Instances
import TreeTemplate.Proofs.Render.Sketch
import TreeTemplate.Proofs.Render.Selection
import TreeTemplate.Proofs.Render.Visit
import TreeTemplate.Proofs.Render.Placing
import TreeTemplate.Proofs.Render.Settling
import TreeTemplate.Proofs.Render.Bare
import TreeTemplate.Proofs.Render.InPlace
import TreeTemplate.Proofs.Render.Idempotence
import TreeTemplate.Proofs.Render.Family
import TreeTemplate.Proofs.Render.Round
import TreeTemplate.Proofs.Render.Session
import TreeTemplate.Proofs.Tour
import TreeTemplate.Proofs.Expression.Recognition
import TreeTemplate.Proofs.Expression.Height
import TreeTemplate.Proofs.Document.Links
import TreeTemplate.Proofs.Document.Upkeep
import TreeTemplate.Proofs.Document.Moves
import TreeTemplate.Proofs.Document.Scatter
import TreeTemplate.Proofs.Render.Confinement
import TreeTemplate.Proofs.Render.Lease
import TreeTemplate.Proofs.Lifetime
import TreeTemplate.Proofs.Tenancy
import TreeTemplate.Proofs.Document.Unscanned
import TreeTemplate.Proofs.Document.Records
import TreeTemplate.Proofs.Document.Frame
import TreeTemplate.Proofs.Render.Frame
import TreeTemplate.Proofs.Expression.Caching
import TreeTemplate.Proofs.Binding.Meaning
import TreeTemplate.Proofs.Binding.Coherence
import TreeTemplate.Proofs.Render.Filling
import TreeTemplate.Proofs.Context.Mirror
import TreeTemplate.Proofs.Render.Twins
import TreeTemplate.Proofs.Lockstep
import TreeTemplate.Proofs.Render.Abreast
import TreeTemplate.Proofs.Render.HostEdit
import TreeTemplate.Proofs.Render.Turns
import TreeTemplate.Proofs.Render.Crew
import TreeTemplate.Proofs.Document.Annals
import TreeTemplate.Proofs.Document.Events
import TreeTemplate.Proofs.Render.Events
import TreeTemplate.Proofs.Course
import TreeTemplate.Proofs.Document.Shape
import TreeTemplate.Proofs.Render.Changes
import TreeTemplate.Proofs.Render.Shape
import TreeTemplate.Proofs.Render.SelfContained
import TreeTemplate.Proofs.Termination
import TreeTemplate.Proofs.Document.Renumbering
import TreeTemplate.Proofs.Independence
import TreeTemplate.Proofs.Context.Pooling
import TreeTemplate.Proofs.Binding.Diary
import TreeTemplate.Proofs.Binding.Desk
import TreeTemplate.Proofs.Binding.Compiled
import TreeTemplate.Proofs.Report.Check
import TreeTemplate.Proofs.Render.Tally
import TreeTemplate.Proofs.Render.Content
import TreeTemplate.Proofs.Document.Accretion
import TreeTemplate.Proofs.Render.Loading
import TreeTemplate.Proofs.Context.Dispatch
import TreeTemplate.Proofs.Render.Loyalty
import TreeTemplate.Proofs.Registration
import TreeTemplate.Proofs.Text.Trimming
import TreeTemplate.Proofs.Expression.Lists
import TreeTemplate.Proofs.Expression.Rewording
import TreeTemplate.Proofs.Expression.Spelling
import TreeTemplate.Proofs.Expression.Respacing
import TreeTemplate.Proofs.Render.Naming
import TreeTemplate.Proofs.Text.Bytes
import TreeTemplate.Proofs.Expression.Literals
import TreeTemplate.Proofs.Expression.Spans
import TreeTemplate.Proofs.Expression.Cursor
import TreeTemplate.Proofs.Expression.Positions
import TreeTemplate.Proofs.Expression.Names
import TreeTemplate.Proofs.Context.Footprint
import TreeTemplate.Proofs.Value.Assignment
import TreeTemplate.Proofs.Document.Cloning
import TreeTemplate.Proofs.Expression.Requests
import TreeTemplate.Proofs.Binding.Census
import TreeTemplate.Proofs.Report.Fingerprints
import TreeTemplate.Proofs.Document.Visibility
import TreeTemplate.Proofs.Render.Missing
import TreeTemplate.Proofs.Number.Whole
import TreeTemplate.Proofs.Context.Indexing
import TreeTemplate.Proofs.Render.Stray
import TreeTemplate.Proofs.Render.Inclusion
import TreeTemplate.Proofs.Document.Tops
import TreeTemplate.Proofs.Render.Leftover
import TreeTemplate.Proofs.Document.Ground
import TreeTemplate.Proofs.Fitness
