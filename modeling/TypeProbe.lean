import TypeProbe.Keyed
import TypeProbe.Ordered
import TypeProbe.Text.Ascii
import TypeProbe.Text.LetterCase
import TypeProbe.Text.Template
import TypeProbe.Text.Marker
import TypeProbe.Number.Shortest
import TypeProbe.Ty.Identity
import TypeProbe.Ty.Build
import TypeProbe.Ty.Shorthand
import TypeProbe.Ty.Single
import TypeProbe.Ty.Same
import TypeProbe.Ty.Widen
import TypeProbe.Ty.Containment
import TypeProbe.Ty.Layout
import TypeProbe.Issue
import TypeProbe.Settings.Basic
import TypeProbe.LogFormat
import TypeProbe.Builder
import TypeProbe.ShownType
import TypeProbe.Session
import TypeProbe.Proofs.Containment.Denotation
import TypeProbe.Proofs.Containment.Transitive
import TypeProbe.Proofs.Containment.Agreement
import TypeProbe.Proofs.Containment.Unlimited
import TypeProbe.Proofs.Containment.WritingOrder
import TypeProbe.Proofs.Containment.Callables
import TypeProbe.Proofs.Containment.Records
import TypeProbe.Proofs.Identity.Faithful
import TypeProbe.Proofs.Assertion.Invariant
import TypeProbe.Proofs.Assertion.JudgingOrder
import TypeProbe.Proofs.Assertion.WritingOrder
import TypeProbe.Proofs.Session.History
import TypeProbe.Proofs.Session.Units
import TypeProbe.Proofs.Ty.Matches
import TypeProbe.Proofs.Builder.Terms
import TypeProbe.Proofs.Builder.Intersection
import TypeProbe.Proofs.Text.Markers
import TypeProbe.Proofs.Text.Templates
import TypeProbe.Proofs.Ty.Unions
import TypeProbe.Proofs.Ty.Layout
import TypeProbe.Proofs.Widening.NormalForm
import TypeProbe.Proofs.Widening.Containment
