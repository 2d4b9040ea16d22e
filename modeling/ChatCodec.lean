import ChatCodec.Main
import ChatCodec.Entity.Message
import ChatCodec.Proofs.Agreement
import ChatCodec.Proofs.RoundTrip
import ChatCodec.Proofs.Lexer.Bodies
import ChatCodec.Proofs.Lexer.Parting
import ChatCodec.Proofs.Streaming.Reports
import ChatCodec.Proofs.Streaming.Loop
import ChatCodec.Proofs.Streaming.Texts
import ChatCodec.Proofs.Transparency
import ChatCodec.Proofs.Streaming.Objects
import ChatCodec.Proofs.Members
import ChatCodec.Proofs.Reordering
import ChatCodec.Proofs.Canonical
import ChatCodec.Proofs.Json.OneLine
import ChatCodec.Proofs.Normalizing
import ChatCodec.Proofs.OpaquePayloads
import ChatCodec.Proofs.TimestampPayloads
import ChatCodec.Proofs.TokenStream
import ChatCodec.Proofs.KeyMatching
import ChatCodec.Proofs.Streaming.InPlace
import ChatCodec.Proofs.Text.Wellformed
import ChatCodec.Proofs.WrittenForm
import ChatCodec.Proofs.GuildUsers
import ChatCodec.Proofs.Streaming.ErrorPlaces
import ChatCodec.Proofs.Lexer.Strings
import ChatCodec.Proofs.Lexer.Order
import ChatCodec.Proofs.Streaming.Grammar
import ChatCodec.Proofs.Streaming.Events
import ChatCodec.Proofs.Declarative.ReadBack
import ChatCodec.Proofs.Lexer.Words
import ChatCodec.Proofs.Streaming.Arrays
import ChatCodec.Proofs.IntegerPayloads
import ChatCodec.Proofs.IdPayloads
import ChatCodec.Proofs.Lexer.Inside
import ChatCodec.Proofs.Streaming.Atomic
import ChatCodec.Proofs.Streaming.Operations
import ChatCodec.Proofs.Tags
import ChatCodec.Proofs.Tags
import ChatCodec.Proofs.Streaming.Atomic
import ChatCodec.Proofs.Streaming.Operations
import ChatCodec.Proofs.Time.Accepted
import ChatCodec.Proofs.Time.Instants
